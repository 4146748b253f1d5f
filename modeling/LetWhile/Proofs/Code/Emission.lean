import LetWhile.Code.Lower
import LetWhile.Proofs.Defects

/-!
What lowering emits. Lines and slots are only ever added, so the code of a construct is the code of
its parts with a few lines between them; there is one lemma for each construct that has labels.

Main results:

* `statements_refuse`  a block whose names have slots is lowered, whatever the counters, unless it
                       has a defect; then the first of its defects is what lowering fails with
* `branch_emits`, `loop_emits`, `result_emits`
                       the lines of a statement around the lines of its parts
-/
namespace LetWhile.Code

namespace Gen

variable {α β : Type}

theorem run_bind_eq_ok {g : Gen α} {k : α → Gen β} {c : Counters} {e : Emitted β} :
    (g >>= k).run c = .ok e ↔
      ∃ a, g.run c = .ok a ∧ ∃ b, (k a.value).run a.next = .ok b ∧
        e = ⟨b.value, a.lines ++ b.lines, a.slots ++ b.slots, b.next⟩ := by
  simp only [run, Bind.bind]
  cases hg : g c with
  | error f => simp
  | ok a =>
    cases hk : k a.value a.next with
    | error f => simp [hk]
    | ok b => simp [hk, eq_comm]

@[simp] theorem run_pure (a : α) (c : Counters) :
    (pure a : Gen α).run c = .ok ⟨a, [], [], c⟩ := rfl

@[simp] theorem run_emit (l : Line) (c : Counters) :
    (emit l).run c = .ok ⟨(), [l], [], c⟩ := rfl

@[simp] theorem run_compute (i : Instr) (c : Counters) :
    (compute i).run c =
      .ok ⟨.reg c.regs, [.set c.regs i], [], { c with regs := c.regs + 1 }⟩ := rfl

@[simp] theorem run_newLabel (stem : String) (c : Counters) :
    (newLabel stem).run c =
      .ok ⟨.numbered stem (c.labels + 1), [], [], { c with labels := c.labels + 1 }⟩ := rfl

@[simp] theorem run_newSlot (name : String) (c : Counters) :
    (newSlot name).run c =
      .ok ⟨⟨name, c.slots + 1⟩, [], [⟨name, c.slots + 1⟩],
        { c with slots := c.slots + 1 }⟩ := rfl

/-- Never fails, wherever it starts. -/
def Total (g : Gen α) : Prop := ∀ c, ∃ e, g.run c = .ok e

theorem Total.of_run {g : Gen α} {f : Counters → Emitted α} (h : ∀ c, g.run c = .ok (f c)) :
    Total g := fun c => ⟨f c, h c⟩

theorem Total.bind_run {g : Gen α} {k : α → Gen β} (hg : Total g)
    (hk : ∀ c a, g.run c = .ok a → Total (k a.value)) : Total (g >>= k) := by
  intro c
  obtain ⟨a, ha⟩ := hg c
  obtain ⟨b, hb⟩ := hk c a ha a.next
  exact ⟨_, run_bind_eq_ok.2 ⟨a, ha, b, hb, rfl⟩⟩

theorem Total.bind {g : Gen α} {k : α → Gen β} (hg : Total g) (hk : ∀ a, Total (k a)) :
    Total (g >>= k) := hg.bind_run fun _ a _ => hk a.value

theorem total_pure (a : α) : Total (pure a : Gen α) := .of_run (run_pure a)

theorem total_emit (l : Line) : Total (emit l) := .of_run (run_emit l)

theorem total_compute (i : Instr) : Total (compute i) := .of_run (run_compute i)

theorem total_newLabel (stem : String) : Total (newLabel stem) := .of_run (run_newLabel stem)

theorem run_bind_of_error {g : Gen α} {c : Counters} {f : LowerError} (h : g.run c = .error f)
    (k : α → Gen β) : (g >>= k).run c = .error f := by
  simp only [run, Bind.bind] at h ⊢
  rw [h]

theorem run_bind_of_ok {g : Gen α} {c : Counters} {a : Emitted α} (h : g.run c = .ok a)
    {k : α → Gen β} {f : LowerError} (next : (k a.value).run a.next = .error f) :
    (g >>= k).run c = .error f := by
  simp only [run, Bind.bind] at h next ⊢
  rw [h]
  dsimp only
  rw [next]

/-- Fails with the first of the defects, wherever it starts, and without any never fails. -/
def Refuses (g : Gen α) : List Defect → Prop
  | [] => Total g
  | d :: _ => ∀ c, g.run c = .error (.defect d)

theorem Refuses.after_run {g : Gen α} {k : α → Gen β} {defects : List Defect} (hg : Total g)
    (hk : ∀ c a, g.run c = .ok a → Refuses (k a.value) defects) : Refuses (g >>= k) defects := by
  cases defects with
  | nil => exact hg.bind_run hk
  | cons d rest =>
    intro c
    obtain ⟨a, ha⟩ := hg c
    exact run_bind_of_ok ha (hk c a ha a.next)

theorem Refuses.after {g : Gen α} {k : α → Gen β} {defects : List Defect} (hg : Total g)
    (hk : ∀ a, Refuses (k a) defects) : Refuses (g >>= k) defects :=
  .after_run hg fun _ a _ => hk a.value

/-- The defects of the first part come before those of the second. -/
theorem Refuses.bind {g : Gen α} {k : α → Gen β} {defects more : List Defect}
    (hg : Refuses g defects) (hk : ∀ a, Refuses (k a) more) :
    Refuses (g >>= k) (defects ++ more) := by
  cases defects with
  | nil => exact .after hg hk
  | cons d rest => exact fun c => run_bind_of_error (hg c) k

theorem Refuses.bind_total {g : Gen α} {k : α → Gen β} {defects : List Defect}
    (hg : Refuses g defects) (hk : ∀ a, Total (k a)) : Refuses (g >>= k) defects := by
  have h : Refuses (g >>= k) (defects ++ []) := hg.bind hk
  rwa [List.append_nil] at h

end Gen

open Gen

/-- The end of a block that stops the program, and the start of one that nothing leads to. -/
def trapLines (message : String) (made : Nat) : List Line :=
  [.act (.trap (.text message)), .jump .unreachable, .label (.numbered "dead" (made + 1))]

/-- The way around a block that stops the program. -/
def guardLines (failed : Operand) (message : String) (made : Nat) : List Line :=
  [.jump (.branch failed (.numbered "trap" (made + 1)) (.numbered "ok" (made + 2))),
    .label (.numbered "trap" (made + 1)), .act (.trap (.text message)), .jump .unreachable,
    .label (.numbered "ok" (made + 2))]

@[simp] theorem run_trap (message : String) (c : Counters) :
    (trap message).run c =
      .ok ⟨(), trapLines message c.labels, [], { c with labels := c.labels + 1 }⟩ := rfl

@[simp] theorem run_guard (failed : Operand) (message : String) (c : Counters) :
    (guard failed message).run c =
      .ok ⟨(), guardLines failed message c.labels, [], { c with labels := c.labels + 2 }⟩ := rfl

@[simp] theorem run_store (ty : Ty) (value target : Operand) (c : Counters) :
    (store ty value target).run c = .ok ⟨(), [.act (.store ty value target)], [], c⟩ := rfl

theorem total_guard (failed : Operand) (message : String) : Total (guard failed message) :=
  .of_run (run_guard failed message)

theorem total_store (ty : Ty) (value target : Operand) : Total (store ty value target) :=
  .of_run (run_store ty value target)

theorem total_foldlM_prefer (slots : List Slot) (found : Found) :
    Total (slots.foldlM prefer found) := by
  induction slots generalizing found with
  | nil => exact total_pure found
  | cons slot rest ih =>
    rw [List.foldlM_cons]
    exact .bind (.of_run fun c => rfl) ih

theorem total_resolve (scope : Scope Slot) (name : String) : Total (resolve scope name) := by
  unfold resolve
  cases (scope.candidates name).reverse with
  | nil => exact .bind (.of_run (run_trap _)) fun _ => total_pure _
  | cons slot nearer =>
    apply Total.bind (total_compute _)
    intro bound
    apply Total.bind (total_foldlM_prefer _ _)
    intro found
    exact .bind (total_compute _) fun _ => .bind (total_guard _ _) fun _ => total_pure _

theorem total_checkOperands (op : Op) (a b : Dyn) : Total (checkOperands op a b) := by
  unfold checkOperands
  split
  · exact .bind (total_compute _) fun _ => .bind (total_compute _) fun _ => total_guard _ _
  · exact .bind (total_compute _) fun _ => total_guard _ _

theorem operation_refuses (op : Op) (a b : Dyn) : Refuses (operation op a b) op.defects := by
  apply Refuses.after (total_checkOperands op a b)
  intro _
  cases op with
  | unknown symbol => exact fun c => rfl
  | div =>
    exact Total.bind (total_compute _) fun _ => .bind (total_guard _ _) fun _ => .of_run fun _ => rfl
  | _ => exact Total.of_run fun _ => rfl

theorem expression_refuses (scope : Scope Slot) (e : Expr) :
    Refuses (expression scope e) e.defects := by
  induction e with
  | bool b => exact total_pure _
  | number x => exact total_pure _
  | «variable» name =>
    apply Total.bind (total_resolve scope name)
    intro found
    cases found with
    | none => exact total_pure _
    | some cells =>
      exact .bind (total_compute _) fun _ => .bind (total_compute _) fun _ => total_pure _
  | binary op l r left right =>
    exact left.bind fun a => right.bind fun b => operation_refuses op a b
  | hole => exact fun c => rfl

theorem condition_refuses (scope : Scope Slot) (construct : Construct) (e : Expr) :
    Refuses (condition scope construct e) e.defects := by
  apply (expression_refuses scope e).bind_total
  intro v
  exact .bind (total_compute _) fun _ => .bind (total_guard _ _) fun _ => total_compute _

/-- Slots for some names, numbered on from those that were made. -/
def slotsFrom (made : Nat) : List String → List Slot
  | [] => []
  | name :: rest => ⟨name, made + 1⟩ :: slotsFrom (made + 1) rest

/-- The slots of a block, each under its name. -/
def tableFrom (made : Nat) (b : Block) : Dict Slot :=
  (slotsFrom made (Block.declarations b)).foldl (fun table slot => table.insert slot.name slot)
    Dict.empty

/-- Lines that clear the bound flags of a table. -/
def clearLines (table : Dict Slot) : List Line :=
  table.values.map fun slot => .act (.store .i1 (.bit false) slot.bound)

theorem mem_slotsFrom {made : Nat} {names : List String} {slot : Slot}
    (h : slot ∈ slotsFrom made names) :
    slot.name ∈ names ∧ made < slot.index ∧ slot.index ≤ made + names.length := by
  induction names generalizing made with
  | nil => simp [slotsFrom] at h
  | cons name rest ih =>
    rw [slotsFrom, List.mem_cons] at h
    rw [List.mem_cons, List.length_cons]
    obtain rfl | h := h
    · exact ⟨.inl rfl, by simp, by simp⟩
    · obtain ⟨known, low, high⟩ := ih h
      exact ⟨.inr known, by omega, by omega⟩

theorem run_newTable (table : Dict Slot) (names : List String) (c : Counters) :
    (newTable table names).run c =
      .ok ⟨(slotsFrom c.slots names).foldl (fun table slot => table.insert slot.name slot) table,
        [], slotsFrom c.slots names, { c with slots := c.slots + names.length }⟩ := by
  induction names generalizing table c with
  | nil => rfl
  | cons name rest ih =>
    rw [newTable, run_bind_eq_ok]
    refine ⟨_, run_newSlot name c, _, ih _ _, ?_⟩
    simp [slotsFrom, Nat.add_assoc, Nat.add_comm 1]

theorem run_clear (slots : List Slot) (c : Counters) :
    (clear slots).run c =
      .ok ⟨(), slots.map fun slot => .act (.store .i1 (.bit false) slot.bound), [], c⟩ := by
  induction slots with
  | nil => rfl
  | cons slot rest ih =>
    rw [clear, run_bind_eq_ok]
    exact ⟨_, run_store _ _ _ c, _, ih, rfl⟩

@[simp] theorem run_openScope (scope : Scope Slot) (b : Block) (c : Counters) :
    (openScope scope b).run c =
      .ok ⟨tableFrom c.slots b :: scope, clearLines (tableFrom c.slots b),
        slotsFrom c.slots (Block.declarations b),
        { c with slots := c.slots + (Block.declarations b).length }⟩ := by
  simp [openScope, run_bind_eq_ok, run_newTable, run_clear, tableFrom, clearLines]

@[simp] theorem map_name_slotsFrom (made : Nat) (names : List String) :
    (slotsFrom made names).map Slot.name = names := by
  induction names generalizing made with
  | nil => rfl
  | cons name rest ih => simp [slotsFrom, ih]

theorem get?_foldl_insert {slots : List Slot} {table : Dict Slot} {name : String} {slot : Slot}
    (h : (slots.foldl (fun table slot => table.insert slot.name slot) table).get? name =
      some slot) :
    table.get? name = some slot ∨ (slot ∈ slots ∧ slot.name = name) := by
  induction slots generalizing table with
  | nil => exact .inl h
  | cons first rest ih =>
    obtain h | ⟨later, named⟩ := ih h
    · rw [Dict.get?_insert] at h
      split at h
      · rename_i here
        obtain rfl := Option.some.inj h
        exact .inr ⟨List.mem_cons_self, here.symm⟩
      · exact .inl h
    · exact .inr ⟨List.mem_cons_of_mem _ later, named⟩

theorem isSome_get?_foldl_insert {slots : List Slot} {table : Dict Slot} {name : String}
    (h : (table.get? name).isSome ∨ name ∈ slots.map Slot.name) :
    ((slots.foldl (fun table slot => table.insert slot.name slot) table).get? name).isSome := by
  induction slots generalizing table with
  | nil => simpa using h
  | cons first rest ih =>
    apply ih
    rw [Dict.get?_insert]
    by_cases here : name = first.name
    · exact .inl (by simp [here])
    · simpa [here] using h

/-- A block's table has a slot of the block, of that name, under each name. -/
theorem get?_tableFrom {made : Nat} {b : Block} {name : String} {slot : Slot}
    (h : (tableFrom made b).get? name = some slot) :
    slot ∈ slotsFrom made (Block.declarations b) ∧ slot.name = name := by
  obtain h | h := get?_foldl_insert h
  · simp at h
  · exact h

theorem isSome_get?_tableFrom {made : Nat} {b : Block} {name : String}
    (h : name ∈ Block.declarations b) : ((tableFrom made b).get? name).isSome :=
  isSome_get?_foldl_insert (.inr (by simpa using h))

theorem mem_values_tableFrom {made : Nat} {b : Block} {slot : Slot}
    (h : slot ∈ (tableFrom made b).values) : slot ∈ slotsFrom made (Block.declarations b) := by
  obtain ⟨name, h⟩ := Dict.mem_values_iff.1 h
  exact (get?_tableFrom h).1

theorem declares_mem_declarations {b : Block} {s : Stmt} {name : String} (h : s ∈ b)
    (declares : s.declares? = some name) : name ∈ Block.declarations b := by
  rw [Block.declarations, List.mem_eraseDups, List.mem_filterMap]
  exact ⟨s, h, declares⟩

/-- Every name that one of the statements declares has a slot in the nearest table. -/
def Scope.Covers (scope : Scope Slot) (b : List Stmt) : Prop :=
  ∀ s ∈ b, ∀ name, s.declares? = some name → (scope.own? name).isSome

theorem covers_tableFrom (made : Nat) (scope : Scope Slot) (b : Block) :
    Scope.Covers (tableFrom made b :: scope) b := by
  intro s hs name declares
  exact isSome_get?_tableFrom (declares_mem_declarations hs declares)

theorem sizeOf_getD_lt (test : Expr) (yes : Block) (no : Option Block) :
    sizeOf (no.getD []) < sizeOf (Stmt.branch test yes no) := by
  cases no with
  | none =>
    simp only [Option.getD_none, List.nil.sizeOf_spec, Stmt.branch.sizeOf_spec,
      Option.none.sizeOf_spec]
    omega
  | some no =>
    simp only [Option.getD_some, Stmt.branch.sizeOf_spec, Option.some.sizeOf_spec]
    omega

theorem branch_emits {scope : Scope Slot} {test : Expr} {yes : Block} {no : Option Block}
    {c : Counters} {e : Emitted Unit}
    (h : (statement scope (.branch test yes no)).run c = .ok e) :
    ∃ tested, (condition scope .branch test).run c = .ok tested ∧
    ∃ first, (statements (tableFrom tested.next.slots yes :: scope) yes).run
        { tested.next with
          labels := tested.next.labels + 3
          slots := tested.next.slots + (Block.declarations yes).length } = .ok first ∧
    ∃ second, (statements (tableFrom first.next.slots (no.getD []) :: scope) (no.getD [])).run
        { first.next with
          slots := first.next.slots + (Block.declarations (no.getD [])).length } = .ok second ∧
    e = ⟨(),
      tested.lines ++
        Line.jump (.branch tested.value (.numbered "if.then" (tested.next.labels + 1))
          (.numbered "if.else" (tested.next.labels + 2))) ::
        .label (.numbered "if.then" (tested.next.labels + 1)) ::
        (clearLines (tableFrom tested.next.slots yes) ++ first.lines ++
        Line.jump (.goto (.numbered "if.end" (tested.next.labels + 3))) ::
        .label (.numbered "if.else" (tested.next.labels + 2)) ::
        (clearLines (tableFrom first.next.slots (no.getD [])) ++ second.lines ++
        [Line.jump (.goto (.numbered "if.end" (tested.next.labels + 3))),
          .label (.numbered "if.end" (tested.next.labels + 3))])),
      tested.slots ++ slotsFrom tested.next.slots (Block.declarations yes) ++ first.slots ++
        slotsFrom first.next.slots (Block.declarations (no.getD [])) ++ second.slots,
      second.next⟩ := by
  cases no with
  | none =>
    simp only [statement, run_bind_eq_ok, run_newLabel, Except.ok.injEq, run_emit, run_openScope,
      exists_eq_left', List.append_nil, List.cons_append, List.nil_append, exists_eq_left,
      exists_eq_right'] at h
    obtain ⟨tested, ht, _, ⟨_, ⟨_, ⟨_, ⟨first, hf, rfl⟩, rfl⟩, rfl⟩, rfl⟩, rfl⟩ := h
    refine ⟨tested, ht, first, hf, ⟨(), [], [], first.next⟩, rfl, ?_⟩
    simp [Block.declarations, slotsFrom, tableFrom, clearLines, Dict.values, Dict.empty]
  | some no =>
    simp only [statement, run_bind_eq_ok, run_newLabel, Except.ok.injEq, run_emit, run_openScope,
      exists_eq_left', List.append_nil, List.cons_append, List.nil_append, exists_eq_left,
      exists_eq_right'] at h
    obtain ⟨tested, ht, _, ⟨_, ⟨_, ⟨_, ⟨first, hf, _, ⟨_, ⟨_, ⟨_, ⟨second, hs, rfl⟩, rfl⟩, rfl⟩,
      rfl⟩, rfl⟩, rfl⟩, rfl⟩, rfl⟩, rfl⟩ := h
    exact ⟨tested, ht, first, hf, second, hs, by simp⟩

theorem loop_emits {scope : Scope Slot} {test : Expr} {body : Block} {c : Counters}
    {e : Emitted Unit} (h : (statement scope (.loop test body)).run c = .ok e) :
    ∃ tested, (condition scope .loop test).run
        { c with
          labels := c.labels + 3
          slots := c.slots + (Block.declarations body).length } = .ok tested ∧
    ∃ inside, (statements (tableFrom c.slots body :: scope) body).run tested.next = .ok inside ∧
    e = ⟨(),
      clearLines (tableFrom c.slots body) ++
        Line.jump (.goto (.numbered "while.test" (c.labels + 1))) ::
        .label (.numbered "while.test" (c.labels + 1)) ::
        (tested.lines ++
        Line.jump (.branch tested.value (.numbered "while.body" (c.labels + 2))
          (.numbered "while.end" (c.labels + 3))) ::
        .label (.numbered "while.body" (c.labels + 2)) ::
        (inside.lines ++
        [Line.jump (.goto (.numbered "while.test" (c.labels + 1))),
          .label (.numbered "while.end" (c.labels + 3))])),
      slotsFrom c.slots (Block.declarations body) ++ tested.slots ++ inside.slots,
      inside.next⟩ := by
  simp only [statement, run_bind_eq_ok, run_newLabel, Except.ok.injEq, run_emit, run_openScope,
    exists_eq_left', List.append_nil, List.cons_append, List.nil_append, exists_eq_left,
    exists_eq_right'] at h
  obtain ⟨_, ⟨_, ⟨_, ⟨tested, ht, _, ⟨_, ⟨_, ⟨inside, hi, rfl⟩, rfl⟩, rfl⟩, rfl⟩, rfl⟩, rfl⟩,
    rfl⟩ := h
  exact ⟨tested, ht, inside, hi, by simp⟩

theorem result_emits {scope : Scope Slot} {value : Expr} {c : Counters} {e : Emitted Unit}
    (h : (statement scope (.result value)).run c = .ok e) :
    ∃ v, (expression scope value).run c = .ok v ∧
    e = ⟨(),
      v.lines ++ [Line.jump (.goto done), .label (.numbered "after.return" (v.next.labels + 1))],
      v.slots, { v.next with labels := v.next.labels + 1 }⟩ := by
  rw [statement, run_bind_eq_ok] at h
  obtain ⟨v, hv, rest, hr, rfl⟩ := h
  obtain rfl := Except.ok.inj hr
  exact ⟨v, hv, by simp⟩

theorem Gen.Refuses.opened {α : Type} {scope : Scope Slot} {b : Block} {k : Scope Slot → Gen α}
    {defects : List Defect} (h : ∀ made, Refuses (k (tableFrom made b :: scope)) defects) :
    Refuses (openScope scope b >>= k) defects := by
  apply Refuses.after_run (.of_run (run_openScope scope b))
  intro c a ha
  obtain rfl := Except.ok.inj (ha.symm.trans (run_openScope scope b c))
  exact h c.slots

mutual

theorem statement_refuses {scope : Scope Slot} {s : Stmt} (covers : Scope.Covers scope [s]) :
    Refuses (statement scope s) s.defects := by
  cases s with
  | declare name e =>
    obtain ⟨slot, own⟩ := Option.isSome_iff_exists.1 (covers _ List.mem_cons_self name rfl)
    rw [statement]
    apply (expression_refuses scope e).bind_total
    intro v
    simp only [own]
    exact .bind (total_compute _) fun _ => .bind (total_guard _ _) fun _ =>
      .bind (total_store _ _ _) fun _ => .bind (total_store _ _ _) fun _ => total_store _ _ _
  | assign name e =>
    rw [statement]
    apply (expression_refuses scope e).bind_total
    intro v
    apply Total.bind (total_resolve scope name)
    intro found
    cases found with
    | none => exact total_pure _
    | some cells => exact .bind (total_store _ _ _) fun _ => total_store _ _ _
  | branch test yes no =>
    have ends (l : Label) : Total (do emit (.jump (.goto l)); emit (.label l)) :=
      .bind (total_emit _) fun _ => total_emit _
    rw [statement, Stmt.defects_branch]
    apply (condition_refuses scope .branch test).bind
    intro bit
    refine .after (total_newLabel _) fun _ => .after (total_newLabel _) fun _ =>
      .after (total_newLabel _) fun endLabel => .after (total_emit _) fun _ =>
      .after (total_emit _) fun _ => .opened fun made => ?_
    apply (statements_refuse (covers_tableFrom made scope yes)).bind
    intro _
    refine .after (total_emit _) fun _ => .after (total_emit _) fun _ => ?_
    cases no with
    | none => exact ends endLabel
    | some no =>
      refine .opened fun made => ?_
      apply (statements_refuse (covers_tableFrom made scope no)).bind_total
      exact fun _ => ends endLabel
  | loop test body =>
    rw [statement]
    refine .opened fun made => .after (total_newLabel _) fun _ =>
      .after (total_newLabel _) fun _ => .after (total_newLabel _) fun _ =>
      .after (total_emit _) fun _ => .after (total_emit _) fun _ => ?_
    apply (condition_refuses scope .loop test).bind
    intro bit
    refine .after (total_emit _) fun _ => .after (total_emit _) fun _ => ?_
    apply (statements_refuse (covers_tableFrom made scope body)).bind_total
    exact fun _ => .bind (total_emit _) fun _ => total_emit _
  | print e =>
    rw [statement]
    exact (expression_refuses scope e).bind_total fun _ => total_emit _
  | eval e =>
    rw [statement]
    exact (expression_refuses scope e).bind_total fun _ => total_pure _
  | result e =>
    rw [statement]
    apply (expression_refuses scope e).bind_total
    exact fun _ => .bind (total_emit _) fun _ => .bind (total_newLabel _) fun _ => total_emit _
  | hole => exact fun c => rfl

theorem statements_refuse {scope : Scope Slot} {b : List Stmt} (covers : Scope.Covers scope b) :
    Refuses (statements scope b) (Block.defects b) := by
  cases b with
  | nil => exact total_pure _
  | cons s rest =>
    rw [statements]
    apply Refuses.bind
    · exact statement_refuses fun t ht => covers t (by simp_all)
    · intro _
      exact statements_refuse fun t ht => covers t (List.mem_cons_of_mem _ ht)

end

/-- The first block of the program. -/
def start : Label := .numbered "body" 1

/-- The lines of a program from its first block on, given those of its statements. -/
def bodyLines (program : Block) (inside : List Line) : List Line :=
  .label start :: (clearLines (tableFrom 0 program) ++ inside ++ [Line.jump (.goto done)])

/-- A whole program is lowered. -/
theorem lower_emits {program : Block} (whole : Block.isWhole program) :
    ∃ inside, (statements [tableFrom 0 program] program).run
        ⟨1, (Block.declarations program).length, 0⟩ = .ok inside ∧
    (body program).run {} = .ok ⟨start, bodyLines program inside.lines,
      slotsFrom 0 (Block.declarations program) ++ inside.slots, inside.next⟩ := by
  have refuses := statements_refuse (covers_tableFrom 0 [] program)
  rw [(Block.isWhole_iff program).1 whole] at refuses
  obtain ⟨inside, h⟩ := refuses ⟨1, (Block.declarations program).length, 0⟩
  refine ⟨inside, h, ?_⟩
  simp [body, run_bind_eq_ok, h, start, bodyLines]

end LetWhile.Code
