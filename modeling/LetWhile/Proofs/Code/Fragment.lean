import LetWhile.Proofs.Code.Flow

/-!
The code of statements. A fragment may leave the block it starts in, so of the registers from before
none need be in reach where it ends.

Main results:

* `statements_fragment`   the code of statements is a fragment
* `statements_slots`      its slots are those of the blocks inside, each block before those in it
-/
namespace LetWhile.Code

open Gen

/-- Code between two places inside blocks. -/
structure Fragment (known : Slot → Prop) (c : Counters) (lines : List Line) (d : Counters) :
    Prop where
  flows : ∀ lo ≤ c.regs, ∃ lo' ≤ d.regs, Flows known lo c.regs lines lo' d.regs
  labelled : Labelled c.labels lines d.labels
  regs_le : c.regs ≤ d.regs

variable {known : Slot → Prop} {c d : Counters}

theorem Fragment.append {c' : Counters} {a b : List Line} (first : Fragment known c a c')
    (second : Fragment known c' b d) : Fragment known c (a ++ b) d where
  flows := by
    intro lo hlo
    obtain ⟨lo₁, hlo₁, flows₁⟩ := first.flows lo hlo
    obtain ⟨lo₂, hlo₂, flows₂⟩ := second.flows lo₁ hlo₁
    exact ⟨lo₂, hlo₂, flows₁.append flows₂⟩
  labelled := first.labelled.append second.labelled
  regs_le := Nat.le_trans first.regs_le second.regs_le

theorem Fragment.of_straight {α : Type} {e : Emitted α}
    (h : ∀ lo ≤ c.regs, Straight known lo c e) : Fragment known c e.lines e.next where
  flows lo hlo := ⟨lo, Nat.le_trans hlo (h lo hlo).regs_le, (h lo hlo).flows⟩
  labelled := (h c.regs (Nat.le_refl _)).labelled
  regs_le := (h c.regs (Nat.le_refl _)).regs_le

/-- Straight code is a fragment. -/
theorem Gen.Keeps.fragment {α : Type} {g : Gen α} {e : Emitted α} {Q : Nat → α → Nat → Prop}
    (h : ∀ lo, Keeps known lo g c (Q lo)) (he : g.run c = .ok e) :
    Fragment known c e.lines e.next :=
  .of_straight fun lo hlo => (h lo hlo e he).1

theorem fragment_clearLines {table : Dict Slot} (reserved : ∀ slot ∈ table.values, known slot)
    (labels : c.labels = d.labels) (regs : c.regs = d.regs) :
    Fragment known c (clearLines table) d := by
  have flows (slots : List Slot) (h : ∀ slot ∈ slots, known slot) (lo : Nat) :
      Flows known lo c.regs
        (slots.map fun slot => .act (.store .i1 (.bit false) slot.bound)) lo c.regs := by
    induction slots with
    | nil => exact .nil
    | cons slot rest ih =>
      have here := h slot List.mem_cons_self
      refine .act ?_ (ih fun s hs => h s (List.mem_cons_of_mem _ hs))
      simp [Effect.operands, here]
  refine ⟨?_, ?_, Nat.le_of_eq regs⟩
  · intro lo hlo
    rw [← regs]
    exact ⟨lo, hlo, flows table.values reserved lo⟩
  · rw [← labels]
    refine .plain ?_ ?_ _
    · simp [clearLines, Code.labels, Line.label?]
    · simp [clearLines, targets, Line.targets]

theorem labelled_branch {m m₁ m₂ m₃ : Nat} {tested first second : List Line} {test : Operand}
    (ht : Labelled m tested m₁) (hf : Labelled (m₁ + 3) first m₂) (hs : Labelled m₂ second m₃) :
    Labelled m
      (tested ++
        Line.jump (.branch test (.numbered "if.then" (m₁ + 1)) (.numbered "if.else" (m₁ + 2))) ::
        .label (.numbered "if.then" (m₁ + 1)) ::
        (first ++ Line.jump (.goto (.numbered "if.end" (m₁ + 3))) ::
        .label (.numbered "if.else" (m₁ + 2)) ::
        (second ++ [Line.jump (.goto (.numbered "if.end" (m₁ + 3))),
          .label (.numbered "if.end" (m₁ + 3))]))) m₃ := by
  have le₁ := ht.le
  have le₂ := hf.le
  have le₃ := hs.le
  constructor
  · omega
  · intro i
    simp only [labels_append, labels_jump, labels_label, labels_nil, List.map_append,
      List.map_cons, List.map_nil, List.count_append, List.count_cons, List.count_nil, ht.once,
      hf.once, hs.once, Label.rank, beq_iff_eq]
    grind
  · intro l h
    simp only [labels_append, labels_jump, labels_label, labels_nil, List.mem_append,
      List.mem_cons, List.not_mem_nil, or_false] at h
    obtain h | rfl | h | rfl | h | rfl := h
    · exact ht.stems l h
    · exact ⟨"if.then", by decide, rfl⟩
    · exact hf.stems l h
    · exact ⟨"if.else", by decide, rfl⟩
    · exact hs.stems l h
    · exact ⟨"if.end", by decide, rfl⟩
  · intro l hl
    have h₁ := ht.arrivals l hl
    have h₂ := hf.arrivals l hl
    have h₃ := hs.arrivals l hl
    have toThen := Label.jumps_le_arrivals 1 (.numbered "if.then" (m₁ + 1))
      (by simp [Label.arrivals]) l
    have toElse := Label.jumps_le_arrivals 1 (.numbered "if.else" (m₁ + 2))
      (by simp [Label.arrivals]) l
    have toEnd := Label.jumps_le_arrivals 2 (.numbered "if.end" (m₁ + 3))
      (by simp [Label.arrivals]) l
    simp only [labels_append, labels_jump, labels_label, labels_nil, targets_append, targets_jump,
      targets_label, targets_nil, Jump.targets, List.count_append, List.count_cons,
      List.count_nil, beq_iff_eq, Nat.mul_add]
    omega

theorem labelled_loop {m m₁ m₂ : Nat} {tested inside : List Line} {test : Operand}
    (ht : Labelled (m + 3) tested m₁) (hi : Labelled m₁ inside m₂) :
    Labelled m
      (.jump (.goto (.numbered "while.test" (m + 1))) ::
        .label (.numbered "while.test" (m + 1)) ::
        (tested ++
        Line.jump (.branch test (.numbered "while.body" (m + 2)) (.numbered "while.end" (m + 3))) ::
        .label (.numbered "while.body" (m + 2)) ::
        (inside ++ [Line.jump (.goto (.numbered "while.test" (m + 1))),
          .label (.numbered "while.end" (m + 3))]))) m₂ := by
  have le₁ := ht.le
  have le₂ := hi.le
  constructor
  · omega
  · intro i
    simp only [labels_append, labels_jump, labels_label, labels_nil, List.map_append,
      List.map_cons, List.map_nil, List.count_append, List.count_cons, List.count_nil, ht.once,
      hi.once, Label.rank, beq_iff_eq]
    grind
  · intro l h
    simp only [labels_append, labels_jump, labels_label, labels_nil, List.mem_append,
      List.mem_cons, List.not_mem_nil, or_false] at h
    obtain rfl | h | rfl | h | rfl := h
    · exact ⟨"while.test", by decide, rfl⟩
    · exact ht.stems l h
    · exact ⟨"while.body", by decide, rfl⟩
    · exact hi.stems l h
    · exact ⟨"while.end", by decide, rfl⟩
  · intro l hl
    have h₁ := ht.arrivals l hl
    have h₂ := hi.arrivals l hl
    have toTest := Label.jumps_le_arrivals 2 (.numbered "while.test" (m + 1))
      (by simp [Label.arrivals]) l
    have toBody := Label.jumps_le_arrivals 1 (.numbered "while.body" (m + 2))
      (by simp [Label.arrivals]) l
    have toEnd := Label.jumps_le_arrivals 1 (.numbered "while.end" (m + 3))
      (by simp [Label.arrivals]) l
    simp only [labels_append, labels_jump, labels_label, labels_nil, targets_append, targets_jump,
      targets_label, targets_nil, Jump.targets, List.count_append, List.count_cons,
      List.count_nil, beq_iff_eq, Nat.mul_add]
    omega

theorem labelled_result (m : Nat) :
    Labelled m [.jump (.goto done), .label (.numbered "after.return" (m + 1))] (m + 1) := by
  constructor
  · omega
  · intro i
    simp only [labels_jump, labels_label, labels_nil, List.map_cons, List.map_nil,
      List.count_singleton, Label.rank, beq_iff_eq]
    grind
  · intro l h
    simp only [labels_jump, labels_label, labels_nil, List.mem_singleton] at h
    exact ⟨"after.return", by decide, by simp [h, Label.rank]⟩
  · intro l hl
    simp [Jump.targets, List.count_singleton, hl.symm]

theorem within_tableFrom {scope : Scope Slot} (within : Scope.Within scope known) {made : Nat}
    {b : Block} (reserved : ∀ slot ∈ slotsFrom made (Block.declarations b), known slot) :
    Scope.Within (tableFrom made b :: scope) known := by
  intro name slot h
  rw [Scope.candidates_cons, List.mem_append, Option.mem_toList] at h
  obtain here | outer := h
  · exact reserved _ (get?_tableFrom here).1
  · exact within name slot outer

theorem own_known {scope : Scope Slot} (within : Scope.Within scope known) {name : String}
    {slot : Slot} (own : scope.own? name = some slot) : known slot := by
  apply within name slot
  cases scope with
  | nil => simp [Scope.own?] at own
  | cons table outer =>
    have here : table.get? name = some slot := own
    simp [Scope.candidates_cons, here]

section

variable {scope : Scope Slot} {lo : Nat}

theorem keeps_declare (within : Scope.Within scope known) (name : String) (value : Expr) :
    Keeps known lo (statement scope (.declare name value)) c fun _ _ => True := by
  rw [statement]
  apply Keeps.bind (expression_straight within value)
  intro v d _ hv
  cases own : scope.own? name with
  | none => rintro _ _ ⟨⟩
  | some slot =>
    have reserved := own_known within own
    apply Keeps.bind (keeps_compute rfl (by simp [Instr.operands, reserved]))
    intro bound d₂ hd₂ hb
    apply Keeps.bind (keeps_guard hb _)
    intro _ d₃ hd₃ _
    have hv₃ := (hv.mono hd₂).mono hd₃
    apply Keeps.bind (keeps_store hv₃.isBool ((ready_isBool slot).2 reserved))
    intro _ d₄ hd₄ _
    apply Keeps.bind (keeps_store (hv₃.num.mono hd₄) ((ready_num slot).2 reserved))
    intro _ d₅ _ _
    exact keeps_store (ready_bit true) ((ready_bound slot).2 reserved)

theorem keeps_assign (within : Scope.Within scope known) (name : String) (value : Expr) :
    Keeps known lo (statement scope (.assign name value)) c fun _ _ => True := by
  rw [statement]
  apply Keeps.bind (expression_straight within value)
  intro v d _ hv
  apply Keeps.bind (keeps_resolve within name)
  intro found d₂ hd₂ hf
  cases found with
  | none => exact keeps_pure trivial
  | some cells =>
    obtain ⟨hisBool, hnum⟩ := hf cells rfl
    have hv₂ := hv.mono hd₂
    apply Keeps.bind (keeps_store hv₂.isBool hisBool)
    intro _ d₃ hd₃ _
    exact keeps_store (hv₂.num.mono hd₃) (hnum.mono hd₃)

theorem keeps_print (within : Scope.Within scope known) (value : Expr) :
    Keeps known lo (statement scope (.print value)) c fun _ _ => True := by
  rw [statement]
  apply Keeps.bind (expression_straight within value)
  intro v d _ hv
  rintro _ _ ⟨⟩
  have ready : ∀ o ∈ (Effect.print v.isBool v.num).operands, Ready known lo d.regs o := by
    simp [Effect.operands, hv.isBool, hv.num]
  exact ⟨⟨.act ready .nil, .plain rfl rfl _, Nat.le_refl _, rfl, rfl⟩, trivial⟩

theorem keeps_eval (within : Scope.Within scope known) (value : Expr) :
    Keeps known lo (statement scope (.eval value)) c fun _ _ => True := by
  rw [statement]
  apply Keeps.bind (expression_straight within value)
  intro v d _ _
  exact keeps_pure trivial

end

theorem fragment_result {scope : Scope Slot} (within : Scope.Within scope known) {value : Expr}
    {e : Emitted Unit} (h : (statement scope (.result value)).run c = .ok e) :
    Fragment known c e.lines e.next := by
  obtain ⟨v, hv, rfl⟩ := result_emits h
  apply Fragment.append (Keeps.fragment (fun lo => expression_straight within value) hv)
  refine ⟨?_, labelled_result v.next.labels, Nat.le_refl _⟩
  intro lo _
  exact ⟨v.next.regs, Nat.le_refl _, .jump (by simp [Jump.operands]) .nil⟩

theorem fragment_opened {b : Block} {made made' : Nat} {inside : List Line}
    (reserved : ∀ slot ∈ slotsFrom made (Block.declarations b), known slot)
    (h : Fragment known { c with slots := made' } inside d) :
    Fragment known c (clearLines (tableFrom made b) ++ inside) d := by
  have own : ∀ slot ∈ (tableFrom made b).values, known slot :=
    fun slot hslot => reserved slot (mem_values_tableFrom hslot)
  exact Fragment.append (fragment_clearLines (d := { c with slots := made' }) own rfl rfl) h

/-- A test and two fragments, one for each way it goes. -/
theorem fragment_branch {tested : Emitted Operand} {first second : List Line} {c₁ d₁ : Counters}
    (ht : ∀ lo ≤ c.regs, Straight known lo c tested ∧ Ready known lo tested.next.regs tested.value)
    (hf : Fragment known c₁ first d₁) (hs : Fragment known d₁ second d)
    (labels : c₁.labels = tested.next.labels + 3) (regs : c₁.regs = tested.next.regs) :
    Fragment known c
      (tested.lines ++
        Line.jump (.branch tested.value (.numbered "if.then" (tested.next.labels + 1))
          (.numbered "if.else" (tested.next.labels + 2))) ::
        .label (.numbered "if.then" (tested.next.labels + 1)) ::
        (first ++
        Line.jump (.goto (.numbered "if.end" (tested.next.labels + 3))) ::
        .label (.numbered "if.else" (tested.next.labels + 2)) ::
        (second ++
        [Line.jump (.goto (.numbered "if.end" (tested.next.labels + 3))),
          .label (.numbered "if.end" (tested.next.labels + 3))]))) d := by
  have straight := (ht c.regs (Nat.le_refl _)).1
  constructor
  · intro lo hlo
    obtain ⟨before, ready⟩ := ht lo hlo
    obtain ⟨lo₁, _, inFirst⟩ := hf.flows c₁.regs (Nat.le_refl _)
    obtain ⟨lo₂, _, inSecond⟩ := hs.flows d₁.regs (Nat.le_refl _)
    rw [regs] at inFirst
    refine ⟨d.regs, Nat.le_refl _, before.flows.append (.jump ?_ (inFirst.append
      (.jump ?_ (inSecond.append (.jump ?_ .nil)))))⟩
    · simpa [Jump.operands] using ready
    · simp [Jump.operands]
    · simp [Jump.operands]
  · exact labelled_branch straight.labelled (labels ▸ hf.labelled) hs.labelled
  · have h₁ := straight.regs_le
    have h₂ := hf.regs_le
    have h₃ := hs.regs_le
    omega

/-- A test, and a fragment that goes back to it. -/
theorem fragment_loop {tested : Emitted Operand} {inside : List Line} {c₁ : Counters}
    (ht : ∀ lo ≤ c₁.regs,
      Straight known lo c₁ tested ∧ Ready known lo tested.next.regs tested.value)
    (labels : c₁.labels = c.labels + 3) (regs : c₁.regs = c.regs)
    (hi : Fragment known tested.next inside d) :
    Fragment known c
      (.jump (.goto (.numbered "while.test" (c.labels + 1))) ::
        .label (.numbered "while.test" (c.labels + 1)) ::
        (tested.lines ++
        Line.jump (.branch tested.value (.numbered "while.body" (c.labels + 2))
          (.numbered "while.end" (c.labels + 3))) ::
        .label (.numbered "while.body" (c.labels + 2)) ::
        (inside ++
        [Line.jump (.goto (.numbered "while.test" (c.labels + 1))),
          .label (.numbered "while.end" (c.labels + 3))]))) d := by
  obtain ⟨straight, ready⟩ := ht c₁.regs (Nat.le_refl _)
  constructor
  · intro lo _
    obtain ⟨lo₁, _, again⟩ := hi.flows tested.next.regs (Nat.le_refl _)
    have before := straight.flows
    rw [regs] at before ready
    refine ⟨d.regs, Nat.le_refl _, .jump ?_ (before.append (.jump ?_ (again.append
      (.jump ?_ .nil))))⟩
    · simp [Jump.operands]
    · simpa [Jump.operands] using ready
    · simp [Jump.operands]
  · exact labelled_loop (labels ▸ straight.labelled) hi.labelled
  · have h₁ := straight.regs_le
    have h₂ := hi.regs_le
    omega

mutual

theorem statement_fragment {scope : Scope Slot} (within : Scope.Within scope known) {s : Stmt}
    {c : Counters} {e : Emitted Unit} (h : (statement scope s).run c = .ok e)
    (reserved : ∀ slot ∈ e.slots, known slot) : Fragment known c e.lines e.next := by
  cases s with
  | declare name value => exact Keeps.fragment (fun _ => keeps_declare within name value) h
  | assign name value => exact Keeps.fragment (fun _ => keeps_assign within name value) h
  | print value => exact Keeps.fragment (fun _ => keeps_print within value) h
  | eval value => exact Keeps.fragment (fun _ => keeps_eval within value) h
  | result value => exact fragment_result within h
  | hole => cases h
  | branch test yes no =>
    have smaller := sizeOf_getD_lt test yes no
    obtain ⟨tested, ht, first, hf, second, hs, rfl⟩ := branch_emits h
    simp only [List.mem_append] at reserved
    have ownYes : ∀ slot ∈ slotsFrom tested.next.slots (Block.declarations yes), known slot :=
      fun slot hslot => reserved slot (by simp [hslot])
    have ownNo : ∀ slot ∈ slotsFrom first.next.slots (Block.declarations (no.getD [])),
        known slot := fun slot hslot => reserved slot (by simp [hslot])
    have inYes := statements_fragment (within_tableFrom within ownYes) hf
      fun slot hslot => reserved slot (by simp [hslot])
    have inNo := statements_fragment (within_tableFrom within ownNo) hs
      fun slot hslot => reserved slot (by simp [hslot])
    have opened : Fragment known { tested.next with labels := tested.next.labels + 3 } _ _ :=
      fragment_opened ownYes inYes
    exact fragment_branch (fun lo hlo => condition_straight within .branch test hlo tested ht)
      opened (fragment_opened (c := first.next) ownNo inNo) rfl rfl
  | loop test body =>
    obtain ⟨tested, ht, inside, hi, rfl⟩ := loop_emits h
    simp only [List.mem_append] at reserved
    have own : ∀ slot ∈ slotsFrom c.slots (Block.declarations body), known slot :=
      fun slot hslot => reserved slot (by simp [hslot])
    have again := statements_fragment (within_tableFrom within own) hi
      fun slot hslot => reserved slot (by simp [hslot])
    exact (fragment_clearLines (fun slot hslot => own slot (mem_values_tableFrom hslot)) rfl
      rfl).append (fragment_loop (c := c)
        (fun lo hlo => condition_straight within .loop test hlo tested ht) rfl rfl again)
termination_by sizeOf s

/-- **The code of statements is a fragment** over the slots around them and those they make. -/
theorem statements_fragment {scope : Scope Slot} (within : Scope.Within scope known)
    {b : List Stmt} {c : Counters} {e : Emitted Unit} (h : (statements scope b).run c = .ok e)
    (reserved : ∀ slot ∈ e.slots, known slot) : Fragment known c e.lines e.next := by
  cases b with
  | nil =>
    obtain rfl := Except.ok.inj h
    exact ⟨fun lo hlo => ⟨lo, hlo, .nil⟩, .plain rfl rfl _, Nat.le_refl _⟩
  | cons s rest =>
    rw [statements, run_bind_eq_ok] at h
    obtain ⟨first, hf, second, hs, rfl⟩ := h
    simp only [List.mem_append] at reserved
    exact (statement_fragment within hf fun slot hslot => reserved slot (.inl hslot)).append
      (statements_fragment within hs fun slot hslot => reserved slot (.inr hslot))
termination_by sizeOf b

end

theorem slotsFrom_append (made : Nat) (a b : List String) :
    slotsFrom made (a ++ b) = slotsFrom made a ++ slotsFrom (made + a.length) b := by
  induction a generalizing made with
  | nil => simp [slotsFrom]
  | cons name rest ih => simp [slotsFrom, ih, Nat.add_assoc, Nat.add_comm 1]

/-- The names that the blocks inside a statement declare, block by block. -/
def Stmt.inside (s : Stmt) : List String := s.blocks.flatMap Block.declarations

def Block.inside (b : List Stmt) : List String := (Block.inner b).flatMap Block.declarations

theorem inside_branch (test : Expr) (yes : Block) (no : Option Block) :
    Stmt.inside (.branch test yes no) =
      Block.declarations yes ++ Block.inside yes ++
        (Block.declarations (no.getD []) ++ Block.inside (no.getD [])) := by
  cases no with
  | none => simp [Stmt.inside, Stmt.blocks, Block.inside, Block.inner]
  | some no => simp [Stmt.inside, Stmt.blocks, Block.inside]

theorem everything_within (scope : Scope Slot) : Scope.Within scope fun _ => True :=
  fun _ _ _ => trivial

theorem Gen.Keeps.noSlots {α : Type} {g : Gen α} {e : Emitted α} {Q : α → Nat → Prop}
    (h : Keeps (fun _ => True) c.regs g c Q) (he : g.run c = .ok e) :
    e.slots = [] ∧ e.next.slots = c.slots :=
  ⟨(h (Nat.le_refl _) e he).1.noSlots, (h (Nat.le_refl _) e he).1.sameSlots⟩

mutual

theorem statement_slots {scope : Scope Slot} {s : Stmt} {c : Counters} {e : Emitted Unit}
    (h : (statement scope s).run c = .ok e) :
    e.slots = slotsFrom c.slots (Stmt.inside s) ∧
      e.next.slots = c.slots + (Stmt.inside s).length := by
  have within := everything_within scope
  cases s with
  | declare name value => exact (keeps_declare within name value).noSlots h
  | assign name value => exact (keeps_assign within name value).noSlots h
  | print value => exact (keeps_print within value).noSlots h
  | eval value => exact (keeps_eval within value).noSlots h
  | result value =>
    obtain ⟨v, hv, rfl⟩ := result_emits h
    exact (expression_straight within value).noSlots hv
  | hole => cases h
  | branch test yes no =>
    have smaller := sizeOf_getD_lt test yes no
    obtain ⟨tested, ht, first, hf, second, hs, rfl⟩ := branch_emits h
    obtain ⟨none, same⟩ := (condition_straight within .branch test).noSlots ht
    obtain ⟨slots₁, next₁⟩ := statements_slots hf
    obtain ⟨slots₂, next₂⟩ := statements_slots hs
    rw [inside_branch]
    simp only [none, slots₁, slots₂, next₁, next₂, same, slotsFrom_append, List.length_append,
      List.nil_append, List.append_assoc, Nat.add_assoc, and_self]
  | loop test body =>
    obtain ⟨tested, ht, inside, hi, rfl⟩ := loop_emits h
    obtain ⟨none, same⟩ := (condition_straight within .loop test).noSlots ht
    obtain ⟨slots, next⟩ := statements_slots hi
    have split : Stmt.inside (.loop test body) = Block.declarations body ++ Block.inside body := rfl
    rw [split]
    simp only [none, slots, next, same, slotsFrom_append, List.length_append, List.append_nil,
      Nat.add_assoc, and_self]
termination_by sizeOf s

/-- **A slot for each name of each block inside**, numbered on from those that were made. -/
theorem statements_slots {scope : Scope Slot} {b : List Stmt} {c : Counters} {e : Emitted Unit}
    (h : (statements scope b).run c = .ok e) :
    e.slots = slotsFrom c.slots (Block.inside b) ∧
      e.next.slots = c.slots + (Block.inside b).length := by
  cases b with
  | nil =>
    obtain rfl := Except.ok.inj h
    exact ⟨rfl, rfl⟩
  | cons s rest =>
    rw [statements, run_bind_eq_ok] at h
    obtain ⟨first, hf, second, hs, rfl⟩ := h
    obtain ⟨slots₁, next₁⟩ := statement_slots hf
    obtain ⟨slots₂, next₂⟩ := statements_slots hs
    have split : Block.inside (s :: rest) = Stmt.inside s ++ Block.inside rest := by
      simp [Block.inside, Block.inner, Stmt.inside]
    rw [split]
    simp only [slots₁, slots₂, next₁, next₂, slotsFrom_append, List.length_append, Nat.add_assoc,
      and_self]
termination_by sizeOf b

end

end LetWhile.Code
