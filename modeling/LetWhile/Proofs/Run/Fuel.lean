import LetWhile.Run

/-!
# Runs and their fuel

Fuel decides only whether a run is followed to its end: a statement, block or program that ends does
the same with more fuel (`Stmt.exec_extends`, `Block.exec_extends`, `Block.run_of_le`). So how a
program ends can be said without fuel (`Block.Ends`, `Block.Diverges`), and it ends in one way.
-/

namespace LetWhile

/-- Does what `run` does wherever that does not run out of fuel. -/
def Extends (run' run : State → Ending × State) : Prop :=
  ∀ s, (run s).1 ≠ .outOfFuel → run' s = run s

theorem Extends.refl (run : State → Ending × State) : Extends run run := fun _ _ => rfl

/-- More passes, each of which extends the one before, extend the loop. -/
theorem State.iterate_extends {test : Expr} {body body' : State → Ending × State}
    (h : Extends body' body) {n n' : Nat} (le : n ≤ n') (inner : Frame) :
    Extends (State.iterate test body' n' inner) (State.iterate test body n inner) := by
  induction n generalizing n' inner with
  | zero =>
    intro s ends
    exact absurd rfl ends
  | succ n ih =>
    intro s ends
    obtain ⟨m, rfl⟩ : ∃ m, n' = m + 1 := ⟨n' - 1, by omega⟩
    rw [State.iterate] at ends ⊢
    rw [State.iterate]
    cases htest : test.test .loop s.env with
    | error failure => rfl
    | ok taken =>
      cases taken with
      | false => rfl
      | true =>
        rw [htest] at ends
        dsimp only at ends ⊢
        cases hbody : body (s.enter inner) with
        | mk ending s' =>
          rw [hbody] at ends
          have running : ending ≠ .outOfFuel := by
            rintro rfl
            exact ends rfl
          rw [h _ (by rwa [hbody]), hbody]
          cases ending with
          | normal => exact ih (by omega) _ _ ends
          | returned v => rfl
          | failed failure => rfl
          | outOfFuel => rfl

/-- An absent `else` runs as an empty block. -/
theorem Stmt.exec_branch (fuel : Nat) {test : Expr} (yes : Block) (no : Option Block) {s : State}
    {taken : Bool} (h : test.test .branch s.env = .ok taken) :
    (Stmt.branch test yes no).exec fuel s =
      Prod.map id State.leave (Block.exec fuel (if taken then yes else no.getD [])
        ((s.emit (.branched taken)).enter Dict.empty)) := by
  rw [Stmt.exec, h]
  cases taken with
  | true => rfl
  | false => cases no <;> simp [Block.exec, Prod.map]

theorem Stmt.exec_branch_failed (fuel : Nat) {test : Expr} (yes : Block) (no : Option Block)
    {s : State} {failure : Failure} (h : test.test .branch s.env = .error failure) :
    (Stmt.branch test yes no).exec fuel s = (.failed failure, s) := by
  rw [Stmt.exec, h]

section

variable {fuel fuel' : Nat}

theorem Stmt.exec_extends_branch (test : Expr) {yes : Block} {no : Option Block}
    (inYes : Extends (Block.exec fuel' yes) (Block.exec fuel yes))
    (inNo : Extends (Block.exec fuel' (no.getD [])) (Block.exec fuel (no.getD []))) :
    Extends ((Stmt.branch test yes no).exec fuel') ((Stmt.branch test yes no).exec fuel) := by
  intro s ends
  cases htest : test.test .branch s.env with
  | error failure => rw [exec_branch_failed fuel' yes no htest, exec_branch_failed fuel yes no htest]
  | ok taken =>
    rw [exec_branch fuel yes no htest] at ends ⊢
    rw [exec_branch fuel' yes no htest]
    have inside : Extends (Block.exec fuel' (if taken then yes else no.getD []))
        (Block.exec fuel (if taken then yes else no.getD [])) := by
      cases taken with
      | true => exact inYes
      | false => exact inNo
    rw [inside _ ends]

theorem Block.exec_extends_cons {stmt : Stmt} {rest : Block}
    (first : Extends (stmt.exec fuel') (stmt.exec fuel))
    (others : Extends (Block.exec fuel' rest) (Block.exec fuel rest)) :
    Extends (Block.exec fuel' (stmt :: rest)) (Block.exec fuel (stmt :: rest)) := by
  intro s ends
  rw [Block.exec] at ends ⊢
  rw [Block.exec]
  cases hfirst : stmt.exec fuel s with
  | mk ending s' =>
    rw [hfirst] at ends
    have running : ending ≠ .outOfFuel := by
      rintro rfl
      exact ends rfl
    rw [first s (by rwa [hfirst]), hfirst]
    cases ending with
    | normal => exact others s' ends
    | returned v => rfl
    | failed failure => rfl
    | outOfFuel => rfl

mutual

theorem Stmt.exec_extends (le : fuel ≤ fuel') : (stmt : Stmt) →
    Extends (stmt.exec fuel') (stmt.exec fuel)
  | .branch test yes none =>
    Stmt.exec_extends_branch test (Block.exec_extends le yes) (Block.exec_extends le [])
  | .branch test yes (some no) =>
    Stmt.exec_extends_branch test (Block.exec_extends le yes) (Block.exec_extends le no)
  | .loop test body => fun s ends => by
    rw [Stmt.exec] at ends ⊢
    rw [Stmt.exec]
    exact State.iterate_extends (Block.exec_extends le body) le Dict.empty _ ends
  | .declare _ _ | .assign _ _ | .print _ | .eval _ | .result _ | .hole => fun s _ => by
    simp only [Stmt.exec]

theorem Block.exec_extends (le : fuel ≤ fuel') : (b : List Stmt) →
    Extends (Block.exec fuel' b) (Block.exec fuel b)
  | [] => fun _ _ => rfl
  | stmt :: rest =>
    Block.exec_extends_cons (Stmt.exec_extends le stmt) (Block.exec_extends le rest)

end

/-- A program that ends does the same with more fuel. -/
theorem Block.runFrom_of_le (le : fuel ≤ fuel') {number : Nat} {b : List Stmt} {s : State}
    (ends : (Block.runFrom fuel number b s).1 ≠ .outOfFuel) :
    Block.runFrom fuel' number b s = Block.runFrom fuel number b s := by
  induction b generalizing number s with
  | nil => rfl
  | cons stmt rest ih =>
    rw [Block.runFrom] at ends ⊢
    rw [Block.runFrom]
    cases hfirst : stmt.exec fuel s with
    | mk ending s' =>
      rw [hfirst] at ends
      have running : ending ≠ .outOfFuel := by
        rintro rfl
        exact ends rfl
      rw [stmt.exec_extends le s (by rwa [hfirst]), hfirst]
      cases ending with
      | normal => exact ih ends
      | returned v => rfl
      | failed failure => rfl
      | outOfFuel => rfl

end

/-- A program ends as its statements do; a return leaves an event that prints nothing. -/
theorem runFrom_eq (fuel number : Nat) (b : List Stmt) (s : State) :
    ∃ k, Block.runFrom fuel number b s = match Block.exec fuel b s with
      | (.normal, s') => (.finished, s')
      | (.returned v, s') => (.returned v, s'.emit (.returned k v))
      | (.failed failure, s') => (.failed k failure, s')
      | (.outOfFuel, s') => (.outOfFuel, s') := by
  induction b generalizing number s with
  | nil => exact ⟨number, by simp [Block.runFrom, Block.exec]⟩
  | cons stmt b ih =>
    rw [Block.runFrom, Block.exec]
    obtain ⟨ending, s'⟩ := stmt.exec fuel s
    cases ending with
    | normal => exact ih (number + 1) s'
    | returned v => exact ⟨number, rfl⟩
    | failed failure => exact ⟨number, rfl⟩
    | outOfFuel => exact ⟨number, rfl⟩

/-! ## Runs without fuel -/

/-- The run ends, whatever time it takes. -/
def Settles (run : Nat → State → Ending × State) (s : State) (ending : Ending) (s' : State) : Prop :=
  ending ≠ .outOfFuel ∧ ∃ fuel, run fuel s = (ending, s')

def Forever (run : Nat → State → Ending × State) (s : State) : Prop :=
  ∀ fuel, (run fuel s).1 = .outOfFuel

/-- Two results that each stay from some fuel on are one. -/
theorem eq_of_steady {α : Type} {run : Nat → α} {a b : α}
    (first : ∃ enough, ∀ fuel, enough ≤ fuel → run fuel = a)
    (second : ∃ enough, ∀ fuel, enough ≤ fuel → run fuel = b) : a = b := by
  obtain ⟨n, isFirst⟩ := first
  obtain ⟨n', isSecond⟩ := second
  rw [← isFirst (max n n') (Nat.le_max_left _ _), isSecond (max n n') (Nat.le_max_right _ _)]

/-- Does the same with more fuel. -/
def Steady (run : Nat → State → Ending × State) : Prop :=
  ∀ n n', n ≤ n' → Extends (run n') (run n)

section

variable {run : Nat → State → Ending × State} {s s' s'' : State} {ending ending' : Ending}

theorem Settles.of_le (steady : Steady run) (h : Settles run s ending s') :
    ∃ enough, ∀ fuel, enough ≤ fuel → run fuel s = (ending, s') := by
  obtain ⟨running, enough, result⟩ := h
  refine ⟨enough, fun fuel le => ?_⟩
  have ends : (run enough s).1 ≠ .outOfFuel := by rwa [result]
  exact (steady enough fuel le s ends).trans result

theorem Settles.unique (steady : Steady run) (h : Settles run s ending s')
    (h' : Settles run s ending' s'') : ending = ending' ∧ s' = s'' := by
  have same := eq_of_steady (h.of_le steady) (h'.of_le steady)
  exact Prod.mk.inj same

theorem Settles.not_forever (h : Settles run s ending s') : ¬ Forever run s := by
  obtain ⟨running, fuel, result⟩ := h
  intro forever
  have out := forever fuel
  rw [result] at out
  exact running out

theorem settles_or_forever (run : Nat → State → Ending × State) (s : State) :
    (∃ ending s', Settles run s ending s') ∨ Forever run s := by
  by_cases ends : ∃ fuel, (run fuel s).1 ≠ .outOfFuel
  · obtain ⟨fuel, running⟩ := ends
    exact .inl ⟨_, _, running, fuel, rfl⟩
  · exact .inr fun fuel => Classical.byContradiction fun running => ends ⟨fuel, running⟩

end

def Stmt.Settles (stmt : Stmt) : State → Ending → State → Prop :=
  LetWhile.Settles fun fuel => stmt.exec fuel

def Stmt.Forever (stmt : Stmt) : State → Prop := LetWhile.Forever fun fuel => stmt.exec fuel

def Block.Settles (b : Block) : State → Ending → State → Prop :=
  LetWhile.Settles fun fuel => Block.exec fuel b

def Block.Forever (b : Block) : State → Prop := LetWhile.Forever fun fuel => Block.exec fuel b

theorem Stmt.exec_steady (stmt : Stmt) : Steady fun fuel => stmt.exec fuel :=
  fun _ _ le => stmt.exec_extends le

theorem Block.exec_steady (b : Block) : Steady fun fuel => Block.exec fuel b :=
  fun _ _ le => Block.exec_extends le b

/-- The program ends, whatever time it takes. -/
def Block.Ends (program : Block) (s : State) (outcome : Outcome) (s' : State) : Prop :=
  outcome ≠ .outOfFuel ∧ ∃ fuel, Block.run fuel program s = (outcome, s')

def Block.Diverges (program : Block) (s : State) : Prop :=
  ∀ fuel, (Block.run fuel program s).1 = .outOfFuel

theorem Block.Ends.run_of_le {program : Block} {s s' : State} {outcome : Outcome}
    (h : Block.Ends program s outcome s') :
    ∃ enough, ∀ fuel, enough ≤ fuel → Block.run fuel program s = (outcome, s') := by
  obtain ⟨running, enough, result⟩ := h
  refine ⟨enough, fun fuel le => ?_⟩
  have ends : (Block.run enough program s).1 ≠ .outOfFuel := by rwa [result]
  rw [← result]
  exact Block.runFrom_of_le le ends

theorem Block.Ends.unique {program : Block} {s s₁ s₂ : State} {o₁ o₂ : Outcome}
    (h₁ : Block.Ends program s o₁ s₁) (h₂ : Block.Ends program s o₂ s₂) : o₁ = o₂ ∧ s₁ = s₂ := by
  have same := eq_of_steady h₁.run_of_le h₂.run_of_le
  exact Prod.mk.inj same

end LetWhile
