import LetWhile.Proofs.Code.Simple
import LetWhile.Proofs.Run.Fuel

/-!
The code of statements does what the statements do. The machine agrees with the state of the program
as long as both run; it returns when the program returns, stops when it fails, and runs on when it
does.

Main result: `statements_simulate`, by a rule for each statement. A loop is by induction on the
passes that it may still make, each of which takes the machine at least one step.
-/
namespace LetWhile.Code

open Gen

/-- How a machine answers to the end of a statement whose code is followed by `rest`. -/
def Answers (f : Function) (fuel : Nat) (known : Slot → Prop) (scope : Scope Slot)
    (rest : List Line) (m : Machine) : Ending × State → Prop
  | (.normal, s) => ∃ n d, Steps f n m ⟨rest, d⟩ ∧ Agrees known scope s d
  | (.returned _, s) => ∃ n m', Steps f n m m' ∧ m'.step f = .returned (some 0) ∧
    m'.data.output = s.encoded
  | (.failed failure, s) => ∃ n m' message, Steps f n m m' ∧ m'.step f = .trapped message ∧
    Announces message failure ∧ m'.data.output = s.encoded
  | (.outOfFuel, _) => ∃ n m', fuel ≤ n ∧ Steps f n m m'

section

variable {f : Function} {fuel : Nat} {known : Slot → Prop} {scope : Scope Slot}
  {rest : List Line} {m m' : Machine} {result : Ending × State}

/-- Steps before the answer. -/
theorem Answers.after {n : Nat} (run : Steps f n m m')
    (h : Answers f fuel known scope rest m' result) :
    Answers f (fuel + n) known scope rest m result := by
  obtain ⟨ending, s⟩ := result
  cases ending with
  | normal =>
    obtain ⟨i, d, later, agrees⟩ := h
    exact ⟨n + i, d, run.append later, agrees⟩
  | returned v =>
    obtain ⟨i, m'', later, facts⟩ := h
    exact ⟨n + i, m'', run.append later, facts⟩
  | failed failure =>
    obtain ⟨i, m'', message, later, facts⟩ := h
    exact ⟨n + i, m'', message, run.append later, facts⟩
  | outOfFuel =>
    obtain ⟨i, m'', le, later⟩ := h
    exact ⟨n + i, m'', by omega, run.append later⟩

theorem Answers.le {fuel' : Nat} (h : Answers f fuel known scope rest m result)
    (le : fuel' ≤ fuel) : Answers f fuel' known scope rest m result := by
  obtain ⟨ending, s⟩ := result
  cases ending with
  | normal => exact h
  | returned v => exact h
  | failed failure => exact h
  | outOfFuel =>
    obtain ⟨n, m', le', run⟩ := h
    exact ⟨n, m', Nat.le_trans le le', run⟩

theorem Answers.later {n : Nat} (run : Steps f n m m')
    (h : Answers f fuel known scope rest m' result) : Answers f fuel known scope rest m result :=
  (h.after run).le (Nat.le_add_right _ _)

/-- An answer that is not a normal end says nothing of what comes behind. -/
theorem Answers.stopped {scope' : Scope Slot} {rest' : List Line} {ending : Ending} {s s' : State}
    (h : Answers f fuel known scope rest m (ending, s)) (stopped : ending ≠ .normal)
    (output : s'.encoded = s.encoded) : Answers f fuel known scope' rest' m (ending, s') := by
  cases ending with
  | normal => exact absurd rfl stopped
  | returned v =>
    obtain ⟨n, m', run, returned, printed⟩ := h
    exact ⟨n, m', run, returned, printed.trans output.symm⟩
  | failed failure =>
    obtain ⟨n, m', message, run, trapped, announces, printed⟩ := h
    exact ⟨n, m', message, run, trapped, announces, printed.trans output.symm⟩
  | outOfFuel => exact h

end

/-- A function that code can stand in: no label stands twice, and `done` returns. -/
structure Hosts (f : Function) : Prop where
  nodup : (labels f.lines).Nodup
  returns : ∀ d, ∃ more, f.goto done d = .goes ⟨.jump (.ret (some 0)) :: more, d⟩

/-- Wherever the code of `g` stands, and from whatever state it starts, it answers to the run. -/
def Simulates (f : Function) (fuel : Nat) (known : Slot → Prop) (scope : Scope Slot)
    (g : Gen Unit) (c : Counters) (run : State → Ending × State) : Prop :=
  ∀ e, g.run c = .ok e → (∀ slot ∈ e.slots, known slot) →
    ∀ rest, e.lines ++ rest <:+ f.lines → ∀ s d, Agrees known scope s d →
      Answers f fuel known scope rest ⟨e.lines ++ rest, d⟩ (run s)

/-- The code of these statements answers, whatever is around them. -/
def BlockSimulates (f : Function) (fuel : Nat) (known : Slot → Prop) (b : List Stmt) : Prop :=
  ∀ scope (c : Counters), Scope.Within scope known → Layered c.slots scope →
    Simulates f fuel known scope (statements scope b) c (Block.exec fuel b)

section

variable {f : Function} {fuel : Nat} {known : Slot → Prop} {scope : Scope Slot} {c : Counters}
  {s : State} {d d' : Data} {made : Nat} {b : Block}

theorem simulates_of_performs {g : Gen Unit} {run : State → Ending × State}
    (h : ∀ s d, Agrees known scope s d → Performs f known scope g c d (run s)) :
    Simulates f fuel known scope g c run := by
  intro e he _ rest place s d agrees
  obtain ⟨n, d', steps, _, _, s', result, agrees'⟩ |
    ⟨n, m, message, steps, trapped, failure, s', result, announces, output⟩ :=
      h s d agrees e he rest place
  · rw [result]
    exact ⟨n, d', steps, agrees'⟩
  · rw [result]
    exact ⟨n, m, message, steps, trapped, announces, output⟩

theorem simulates_result (hosts : Hosts f) (value : Expr) :
    Simulates f fuel known scope (statement scope (.result value)) c
      ((Stmt.result value).exec fuel) := by
  intro e he _ rest place s d agrees
  obtain ⟨v, hv, rfl⟩ := result_emits he
  simp only [List.append_assoc] at place ⊢
  obtain ⟨n, d', run, _, _, quiet, w, evaluated, _⟩ |
    ⟨n, m, message, run, trapped, quiet, failure, fails, announces⟩ :=
      does_expression hosts.nodup agrees.frames value v hv _ place
  · obtain ⟨more, arrives⟩ := hosts.returns d'
    have result : (Stmt.result value).exec fuel s = (.returned w, s) := by
      simp [Stmt.exec, State.withValue, evaluated]
    rw [result]
    exact ⟨n + 1, _, run.append (.goto arrives), rfl, quiet.output.trans agrees.output⟩
  · have result : (Stmt.result value).exec fuel s = (.failed failure, s) := by
      simp [Stmt.exec, State.withValue, fails]
    rw [result]
    exact ⟨n, m, message, run, trapped, announces, quiet.output.trans agrees.output⟩

end

/-- Clears the flags of some slots. -/
def Data.unbind (d : Data) (slots : List Slot) : Data :=
  { d with memory := fun c =>
      if c.part = .bound ∧ c.slot ∈ slots then .holding (.bit false) else d.memory c }

section

variable {f : Function} {fuel : Nat} {known : Slot → Prop} {scope : Scope Slot} {c : Counters}
  {s : State} {d d' : Data} {made : Nat} {b : Block}

theorem unbind_memory (d : Data) (slots : List Slot) (cell : Cell) :
    (d.unbind slots).memory cell =
      if cell.part = .bound ∧ cell.slot ∈ slots then .holding (.bit false) else d.memory cell := rfl

theorem unbind_cons (d : Data) (slot : Slot) (slots : List Slot) :
    (d.put ⟨slot, .bound⟩ (.holding (.bit false))).unbind slots = d.unbind (slot :: slots) := by
  simp only [Data.unbind, Data.put, Data.mk.injEq, true_and, and_true]
  funext ⟨other, part⟩
  by_cases own : other = slot <;> by_cases flag : part = .bound <;> simp [own, flag]

theorem steps_clear {slots : List Slot} (rest : List Line)
    (reserved : ∀ slot ∈ slots, d.memory ⟨slot, .bound⟩ ≠ .absent) :
    Steps f slots.length
      ⟨(slots.map fun slot => .act (.store .i1 (.bit false) slot.bound)) ++ rest, d⟩
      ⟨rest, d.unbind slots⟩ := by
  induction slots generalizing d with
  | nil => simpa [Data.unbind] using Steps.none
  | cons slot slots ih =>
    have here := reserved slot List.mem_cons_self
    let d₁ := d.put ⟨slot, .bound⟩ (.holding (.bit false))
    have later : ∀ slot ∈ slots, d₁.memory ⟨slot, .bound⟩ ≠ .absent := fun other ho =>
      Data.put_reserved (reserved other (List.mem_cons_of_mem _ ho)) _ _
    rw [← unbind_cons]
    refine .more ?_ (ih later)
    simp [Machine.step, Effect.step, Operand.eval, Slot.bound, Word.ty, Part.ty, here]

/-- The slots of a block that is entered are clear and match an empty frame. -/
theorem opened_matches {frames : List Frame} (h : Matches d.memory scope frames)
    (layered : Layered made scope) :
    Matches (d.unbind (tableFrom made b).values).memory (tableFrom made b :: scope)
      (Dict.empty :: frames) := by
  have same : SameElsewhere (· ∈ (tableFrom made b).values) d.memory
      (d.unbind (tableFrom made b).values).memory := by
    intro cell unchanged
    simp [unbind_memory, unchanged]
  refine .cons ?_ (h.elsewhere layered same ?_)
  · intro name
    cases there : (tableFrom made b).get? name with
    | none => rfl
    | some slot =>
      have own : slot ∈ (tableFrom made b).values := Dict.mem_values_iff.2 ⟨name, there⟩
      simp [Slot.Holds, unbind_memory, own]
  · intro slot own
    exact (mem_slotsFrom (mem_values_tableFrom own)).2.1

theorem layered_tableFrom (layered : Layered made scope) (b : Block) :
    Layered (made + (Block.declarations b).length) (tableFrom made b :: scope) := by
  refine ⟨made, Nat.le_add_right _ _, layered, ?_⟩
  intro name slot there
  obtain ⟨own, named⟩ := get?_tableFrom there
  obtain ⟨_, low, high⟩ := mem_slotsFrom own
  exact ⟨named, low, high⟩

theorem unbind_reserved (h : ∀ c : Cell, known c.slot → d.memory c ≠ .absent)
    (slots : List Slot) (cell : Cell) (hc : known cell.slot) :
    (d.unbind slots).memory cell ≠ .absent := by
  rw [unbind_memory]
  split
  · simp
  · exact h cell hc

theorem Agrees.opened (h : Agrees known scope s d) (layered : Layered made scope) :
    Agrees known (tableFrom made b :: scope) (s.enter Dict.empty)
      (d.unbind (tableFrom made b).values) :=
  ⟨opened_matches h.frames layered, h.output, h.room, unbind_reserved h.reserved _⟩

theorem steps_open (h : Agrees known scope s d)
    (own : ∀ slot ∈ slotsFrom made (Block.declarations b), known slot) (rest : List Line) :
    Steps f (tableFrom made b).values.length ⟨clearLines (tableFrom made b) ++ rest, d⟩
      ⟨rest, d.unbind (tableFrom made b).values⟩ :=
  steps_clear rest fun slot hs => h.reserved ⟨slot, .bound⟩ (own slot (mem_values_tableFrom hs))

/-- Inside a block, the blocks around it agree. -/
theorem Agrees.around {table : Dict Slot} {inner : Frame}
    (h : Agrees known (table :: scope) (s.enter inner) d) : Agrees known scope s d :=
  ⟨(List.forall₂_cons.1 h.frames).2, h.output, h.room, h.reserved⟩

/-- A state inside some other block is entered from the state outside. -/
theorem Agrees.leave_enter {table : Dict Slot} (h : Agrees known (table :: scope) s d)
    (inner : scope ≠ []) : s.leave.enter s.env.own = s := by
  obtain ⟨⟨own, outer⟩, room, past⟩ := s
  cases outer with
  | nil =>
    have none := (List.forall₂_cons.1 h.frames).2
    exact absurd (List.forall₂_nil_right_iff.1 none) inner
  | cons frame frames => rfl

theorem Agrees.leave {table : Dict Slot} (h : Agrees known (table :: scope) s d)
    (inner : scope ≠ []) : Agrees known scope s.leave d := by
  rw [← h.leave_enter inner] at h
  exact h.around

theorem Agrees.inner (h : Agrees known scope s d) : scope ≠ [] := by
  rintro rfl
  cases h.frames

theorem Agrees.emit (h : Agrees known scope s d) {event : Event} (silent : event.encoded? = none) :
    Agrees known scope (s.emit event) d :=
  ⟨h.frames, by simp [h.output, State.encoded, State.emit, silent], h.room, h.reserved⟩

/-- The code of a block that is entered, with a jump behind it to where it goes on. -/
theorem answers_block (simulates : BlockSimulates f fuel known b)
    (within : Scope.Within scope known) (layered : Layered made scope) {inner : Emitted Unit}
    (counted : c.slots = made + (Block.declarations b).length)
    (he : (statements (tableFrom made b :: scope) b).run c = .ok inner)
    (own : ∀ slot ∈ slotsFrom made (Block.declarations b), known slot)
    (reserved : ∀ slot ∈ inner.slots, known slot) {more rest : List Line} {l : Label}
    (place : clearLines (tableFrom made b) ++ (inner.lines ++ Line.jump (.goto l) :: more) <:+
      f.lines)
    (arrives : ∀ d, f.goto l d = .goes ⟨rest, d⟩) (agrees : Agrees known scope s d) :
    Answers f fuel known scope rest
      ⟨clearLines (tableFrom made b) ++ (inner.lines ++ Line.jump (.goto l) :: more), d⟩
      (Prod.map id State.leave (Block.exec fuel b (s.enter Dict.empty))) := by
  have answers := simulates _ c (within_tableFrom within own)
    (counted ▸ layered_tableFrom layered b) inner he reserved _
    ((List.suffix_append _ _).trans place) _ _ (agrees.opened layered)
  apply Answers.later (steps_open agrees own _)
  revert answers
  obtain ⟨ending, s'⟩ := Block.exec fuel b (s.enter Dict.empty)
  intro answers
  by_cases normal : ending = .normal
  · subst normal
    obtain ⟨n, d', run, agrees'⟩ := answers
    exact ⟨n + 1, d', run.append (.goto (arrives d')), agrees'.leave agrees.inner⟩
  · exact answers.stopped normal s'.encoded_leave

theorem simulates_branch (nodup : (labels f.lines).Nodup) (within : Scope.Within scope known)
    (layered : Layered c.slots scope) (test : Expr) {yes : Block} {no : Option Block}
    (inYes : BlockSimulates f fuel known yes) (inNo : BlockSimulates f fuel known (no.getD [])) :
    Simulates f fuel known scope (statement scope (.branch test yes no)) c
      ((Stmt.branch test yes no).exec fuel) := by
  intro e he reserved rest place s d agrees
  obtain ⟨tested, ht, first, hf, second, hs, rfl⟩ := branch_emits he
  have counted := ((condition_straight (everything_within scope) .branch test).noSlots ht).2
  have later : Layered first.next.slots scope := by
    have more := (statements_slots hf).2
    simp only [counted] at more
    exact layered.mono (by omega)
  simp only [List.append_assoc, List.cons_append, List.nil_append] at place ⊢
  simp only [List.mem_append] at reserved
  obtain ⟨n, d', run, _, _, quiet, taken, holds, bit⟩ |
    ⟨n, m, message, run, trapped, quiet, failure, fails, announces⟩ :=
      does_condition nodup agrees.frames .branch test tested ht _ place
  · have agrees' : Agrees known scope (s.emit (.branched taken)) d' :=
      (agrees.quiet quiet).emit rfl
    -- Where the labels and the blocks stand, from the front to the back.
    have atThen := (List.suffix_cons _ _).trans ((List.suffix_append _ _).trans place)
    have yesPlace := (List.suffix_cons _ _).trans atThen
    have atElse := (List.suffix_cons _ _).trans
      ((List.suffix_append _ _).trans ((List.suffix_append _ _).trans yesPlace))
    have noPlace := (List.suffix_cons _ _).trans atElse
    have atEnd := (List.suffix_cons _ _).trans
      ((List.suffix_append _ _).trans ((List.suffix_append _ _).trans noPlace))
    have arrives := f.goto_place nodup atEnd
    rw [Stmt.exec_branch fuel yes no holds]
    cases taken with
    | true =>
      have into := f.goto_place nodup atThen d'
      apply Answers.later (run.append (.branch bit.eval into))
      refine answers_block inYes within (counted ▸ layered) rfl hf ?_ ?_ yesPlace arrives agrees'
      · exact fun slot own => reserved slot (by simp [own])
      · exact fun slot own => reserved slot (by simp [own])
    | false =>
      have into := f.goto_place nodup atElse d'
      apply Answers.later (run.append (.branch bit.eval into))
      refine answers_block inNo within later rfl hs ?_ ?_ noPlace arrives agrees'
      · exact fun slot own => reserved slot (by simp [own])
      · exact fun slot own => reserved slot (by simp [own])
  · have result : (Stmt.branch test yes no).exec fuel s = (.failed failure, s) := by
      rw [Stmt.exec, fails]
    rw [result]
    exact ⟨n, m, message, run, trapped, announces, quiet.output.trans agrees.output⟩

/-- The passes of a loop, from its test on. -/
theorem answers_iterate (nodup : (labels f.lines).Nodup) {table : Dict Slot} {test : Expr}
    {tested : Emitted Operand} {inside : Emitted Unit}
    (ht : (condition scope .loop test).run c = .ok tested)
    (simulates : Simulates f fuel known (table :: scope) (statements (table :: scope) b) tested.next
      (Block.exec fuel b))
    (hi : (statements (table :: scope) b).run tested.next = .ok inside)
    (reserved : ∀ slot ∈ inside.slots, known slot) {again into out : Label} {rest : List Line}
    (place : .label again :: (tested.lines ++ Line.jump (.branch tested.value into out) ::
      .label into :: (inside.lines ++ Line.jump (.goto again) :: .label out :: rest)) <:+ f.lines)
    {passes : Nat} (le : passes ≤ fuel) {inner : Frame}
    (agrees : Agrees known (table :: scope) (s.enter inner) d) :
    Answers f passes known scope rest
      ⟨tested.lines ++ Line.jump (.branch tested.value into out) ::
        .label into :: (inside.lines ++ Line.jump (.goto again) :: .label out :: rest), d⟩
      (s.iterate test (Block.exec fuel b) passes inner) := by
  have testPlace := (List.suffix_cons _ _).trans place
  have atInto := (List.suffix_cons _ _).trans ((List.suffix_append _ _).trans testPlace)
  have insidePlace := (List.suffix_cons _ _).trans atInto
  have atOut := (List.suffix_cons _ _).trans ((List.suffix_append _ _).trans insidePlace)
  induction passes generalizing s d inner with
  | zero => exact ⟨0, _, Nat.le_refl _, .none⟩
  | succ passes ih =>
    have around := agrees.around
    obtain ⟨n, d₁, run, _, _, quiet, goesOn, holds, bit⟩ |
      ⟨n, m, message, run, trapped, quiet, failure, fails, announces⟩ :=
        does_condition nodup around.frames .loop test tested ht _ testPlace
    · cases goesOn with
      | false =>
        have leave := f.goto_place nodup atOut d₁
        have result : s.iterate test (Block.exec fuel b) (passes + 1) inner = (.normal, s) := by
          rw [State.iterate, holds]
        rw [result]
        exact ⟨n + 1, d₁, run.append (.branch bit.eval leave), around.quiet quiet⟩
      | true =>
        have enter := f.goto_place nodup atInto d₁
        have pass := simulates inside hi reserved _ insidePlace _ _ (agrees.quiet quiet)
        rw [State.iterate, holds]
        -- The jump into the loop is the step that pays for the pass.
        refine Answers.le (Answers.after (run.append (.branch bit.eval enter)) ?_)
          (Nat.add_le_add_left (Nat.le_add_left 1 n) passes)
        revert pass
        obtain ⟨ending, s'⟩ := Block.exec fuel b (s.enter inner)
        intro pass
        have stopped (h : ending ≠ .normal) :
            Answers f passes known scope rest _ (ending, s'.leave) :=
          (pass.stopped h s'.encoded_leave).le (Nat.le_of_succ_le le)
        cases ending with
        | normal =>
          obtain ⟨n', d₂, run', agrees'⟩ := pass
          have back := f.goto_place nodup place d₂
          rw [← agrees'.leave_enter around.inner] at agrees'
          exact (ih (by omega) agrees').later (run'.append (.goto back))
        | returned v => exact stopped (by simp)
        | failed failure => exact stopped (by simp)
        | outOfFuel => exact stopped (by simp)
    · have result :
          s.iterate test (Block.exec fuel b) (passes + 1) inner = (.failed failure, s) := by
        rw [State.iterate, fails]
      rw [result]
      exact ⟨n, m, message, run, trapped, announces, quiet.output.trans around.output⟩

theorem simulates_loop (nodup : (labels f.lines).Nodup) (within : Scope.Within scope known)
    (layered : Layered c.slots scope) (test : Expr) (simulates : BlockSimulates f fuel known b) :
    Simulates f fuel known scope (statement scope (.loop test b)) c
      ((Stmt.loop test b).exec fuel) := by
  intro e he reserved rest place s d agrees
  obtain ⟨tested, ht, inside, hi, rfl⟩ := loop_emits he
  have counted := ((condition_straight (everything_within scope) .loop test).noSlots ht).2
  simp only [List.append_assoc, List.cons_append, List.nil_append] at place ⊢
  simp only [List.mem_append] at reserved
  have own : ∀ slot ∈ slotsFrom c.slots (Block.declarations b), known slot :=
    fun slot hs => reserved slot (by simp [hs])
  have testPlace := (List.suffix_cons _ _).trans ((List.suffix_append _ _).trans place)
  have enter := f.goto_place nodup testPlace (d.unbind (tableFrom c.slots b).values)
  have simulates := simulates _ tested.next (within_tableFrom within own)
    (counted ▸ layered_tableFrom layered b)
  have looped : Agrees known scope (s.emit .looped) d := agrees.emit rfl
  have passes := answers_iterate nodup ht simulates hi (fun slot hs => reserved slot (by simp [hs]))
    testPlace (Nat.le_refl fuel) (looped.opened layered)
  rw [Stmt.exec]
  exact passes.later ((steps_open agrees own _).append (.goto enter))

theorem simulates_nil : BlockSimulates f fuel known [] := by
  rintro scope c _ _ _ ⟨⟩ _ rest _ s d agrees
  rw [Block.exec]
  exact ⟨0, d, .none, agrees⟩

theorem simulates_cons {stmt : Stmt}
    (now : ∀ scope (c : Counters), Scope.Within scope known → Layered c.slots scope →
      Simulates f fuel known scope (statement scope stmt) c (stmt.exec fuel))
    (next : BlockSimulates f fuel known b) : BlockSimulates f fuel known (stmt :: b) := by
  intro scope c within layered e he reserved rest place s d agrees
  rw [statements, run_bind_eq_ok] at he
  obtain ⟨first, hf, second, hs, rfl⟩ := he
  simp only [List.mem_append] at reserved
  simp only [List.append_assoc] at place ⊢
  have answers := now scope c within layered first hf (fun slot hs => reserved slot (.inl hs)) _
    place s d agrees
  have later : Layered first.next.slots scope := by
    rw [(statement_slots hf).2]
    exact layered.mono (Nat.le_add_right _ _)
  rw [Block.exec]
  revert answers
  obtain ⟨ending, s'⟩ := stmt.exec fuel s
  intro answers
  have stopped (h : ending ≠ .normal) : Answers f fuel known scope rest _ (ending, s') :=
    answers.stopped h rfl
  cases ending with
  | normal =>
    obtain ⟨n, d', run, agrees'⟩ := answers
    have further := next scope _ within later second hs (fun slot hs => reserved slot (.inr hs))
      rest ((List.suffix_append _ _).trans place) s' d' agrees'
    exact further.later run
  | returned v => exact stopped (by simp)
  | failed failure => exact stopped (by simp)
  | outOfFuel => exact stopped (by simp)

end

mutual

theorem statement_simulates {f : Function} {fuel : Nat} {known : Slot → Prop}
    {scope : Scope Slot} {c : Counters} (hosts : Hosts f) (within : Scope.Within scope known)
    (layered : Layered c.slots scope) (s : Stmt) :
    Simulates f fuel known scope (statement scope s) c (s.exec fuel) := by
  have nodup := hosts.nodup
  cases s with
  | declare name value =>
    exact simulates_of_performs fun _ _ agrees =>
      performs_declare nodup within layered agrees name value
  | assign name value =>
    exact simulates_of_performs fun _ _ agrees =>
      performs_assign nodup within layered agrees name value
  | print value =>
    exact simulates_of_performs fun _ _ agrees => performs_print nodup agrees value
  | eval value =>
    exact simulates_of_performs fun _ _ agrees => performs_eval nodup agrees value
  | result value => exact simulates_result hosts value
  | hole => rintro _ ⟨⟩
  | branch test yes no =>
    apply simulates_branch nodup within layered test (statements_simulate hosts yes)
    cases no with
    | none => exact simulates_nil
    | some no => exact statements_simulate hosts no
  | loop test body =>
    exact simulates_loop nodup within layered test (statements_simulate hosts body)
termination_by sizeOf s

/-- **The code of statements answers to their run.** -/
theorem statements_simulate {f : Function} {fuel : Nat} {known : Slot → Prop} (hosts : Hosts f)
    (b : List Stmt) : BlockSimulates f fuel known b := by
  cases b with
  | nil => exact simulates_nil
  | cons stmt b =>
    exact simulates_cons (fun _ _ within layered => statement_simulates hosts within layered stmt)
      (statements_simulate hosts b)
termination_by sizeOf b

end

end LetWhile.Code
