import LetWhile.Proofs.Run.Fuel

/-!
# What every run keeps

A statement changes the state by putting other bindings into it, by noting an event and by printing.
What none of these breaks holds behind every statement, block and program, however it ends
(`Stmt.exec_kept`, `Block.exec_kept`, `Block.runFrom_kept`).
-/

namespace LetWhile

/-- Broken by nothing that a statement does to the state. -/
structure State.Lasting (P : State → Prop) : Prop where
  bind : ∀ {s : State} (env : Env), P s → P { s with env }
  emit : ∀ {s : State} (event : Event), P s → P (s.emit event)
  print : ∀ {s : State} (v : Value), P s → P (s.print v).2

section

variable {P : State → Prop} {s : State}

theorem State.withValue_kept (e : Expr) {next : Value → Ending × State} (h : P s)
    (then_ : ∀ v, P (next v).2) : P (s.withValue e next).2 := by
  unfold State.withValue
  split
  · exact then_ _
  · exact h

theorem State.update_kept (lasting : State.Lasting P) (r : Except Failure Env) (h : P s) :
    P (s.update r).2 := by
  cases r with
  | ok env => exact lasting.bind env h
  | error failure => exact h

theorem State.iterate_kept (lasting : State.Lasting P) (test : Expr)
    {body : State → Ending × State} (inside : ∀ s, P s → P (body s).2) (fuel : Nat) (inner : Frame)
    (h : P s) : P (s.iterate test body fuel inner).2 := by
  induction fuel generalizing inner s with
  | zero => exact h
  | succ fuel ih =>
    have passed : P (body (s.enter inner)).2.leave := lasting.bind _ (inside _ (lasting.bind _ h))
    rw [State.iterate]
    split
    · exact h
    · exact h
    · split
      · rename_i s' hbody
        rw [hbody] at passed
        exact ih _ passed
      · rename_i ending s' _ hbody
        rw [hbody] at passed
        exact passed

theorem Stmt.branch_kept (lasting : State.Lasting P) {fuel : Nat} (test : Expr) {yes : Block}
    {no : Option Block} (inYes : ∀ s, P s → P (Block.exec fuel yes s).2)
    (inNo : ∀ s, P s → P (Block.exec fuel (no.getD []) s).2) (h : P s) :
    P ((Stmt.branch test yes no).exec fuel s).2 := by
  cases htest : test.test .branch s.env with
  | error failure =>
    rw [exec_branch_failed fuel yes no htest]
    exact h
  | ok taken =>
    rw [exec_branch fuel yes no htest]
    have entered : P ((s.emit (.branched taken)).enter Dict.empty) :=
      lasting.bind _ (lasting.emit _ h)
    cases taken with
    | true => exact lasting.bind _ (inYes _ entered)
    | false => exact lasting.bind _ (inNo _ entered)

mutual

theorem Stmt.exec_kept (lasting : State.Lasting P) (fuel : Nat) : (stmt : Stmt) → (s : State) →
    P s → P (stmt.exec fuel s).2
  | .declare name e, s, h => by
    simp only [Stmt.exec]
    exact State.withValue_kept e h fun v => State.update_kept lasting _ (lasting.emit _ h)
  | .assign name e, s, h => by
    simp only [Stmt.exec]
    exact State.withValue_kept e h fun v => State.update_kept lasting _ h
  | .branch test yes none, s, h =>
    Stmt.branch_kept lasting test (Block.exec_kept lasting fuel yes) (fun _ h => h) h
  | .branch test yes (some no), s, h =>
    Stmt.branch_kept lasting test (Block.exec_kept lasting fuel yes) (Block.exec_kept lasting fuel no) h
  | .loop test body, s, h => by
    simp only [Stmt.exec]
    exact State.iterate_kept lasting test (Block.exec_kept lasting fuel body) fuel _ (lasting.emit _ h)
  | .print e, s, h => by
    simp only [Stmt.exec]
    exact State.withValue_kept e h fun v => lasting.print v h
  | .eval e, s, h | .result e, s, h => by
    simp only [Stmt.exec]
    exact State.withValue_kept e h fun _ => h
  | .hole, s, h => by
    simp only [Stmt.exec]
    exact h

theorem Block.exec_kept (lasting : State.Lasting P) (fuel : Nat) : (b : List Stmt) → (s : State) →
    P s → P (Block.exec fuel b s).2
  | [], _, h => h
  | stmt :: rest, s, h => by
    have passed := stmt.exec_kept lasting fuel s h
    rw [Block.exec]
    split
    · rename_i s' hfirst
      rw [hfirst] at passed
      exact Block.exec_kept lasting fuel rest s' passed
    · exact passed

end

theorem Block.runFrom_kept (lasting : State.Lasting P) (fuel number : Nat) (b : List Stmt) (h : P s) :
    P (Block.runFrom fuel number b s).2 := by
  induction b generalizing number s with
  | nil => exact h
  | cons stmt rest ih =>
    have passed := stmt.exec_kept lasting fuel s h
    rw [Block.runFrom]
    split <;> rename_i hfirst <;> rw [hfirst] at passed
    · exact ih _ passed
    · exact lasting.emit _ passed
    · exact passed
    · exact passed

end

/-- Output that is accepted without a limit stays so. -/
theorem State.lasting_unlimited : State.Lasting fun s => s.room = none where
  bind _ h := h
  emit _ h := h
  print v h := by
    unfold State.print
    rw [h]
    exact h

theorem Block.run_unlimited {fuel : Nat} {program : Block} {env : Env} {outcome : Outcome} {s : State}
    (result : Block.run fuel program { env } = (outcome, s)) : s.room = none := by
  have kept := Block.runFrom_kept (s := { env }) State.lasting_unlimited fuel 1 program rfl
  rwa [← Block.run, result] at kept

end LetWhile
