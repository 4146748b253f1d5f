import LetWhile.Proofs.Run.Fuel

/-!
# Programs in sequence

A program can be run in two parts. When the first part comes to its end, the second goes on with the
bindings that it left, and only the numbers of its statements change; when the first part fails or
returns, the second is never looked at. Main result: `Block.run_in_parts`.

That the output of a run does not depend on what was written before is `Stmt.exec_preceded` and
`Block.exec_preceded`; what a different first number changes is `Block.runFrom_later`.
-/

namespace LetWhile

namespace State

/-- The state with more behind it. -/
def preceded (past : List Event) (s : State) : State := { s with past := s.past ++ past }

theorem lines_preceded (past : List Event) (s : State) :
    (s.preceded past).lines = State.lines ⟨s.env, s.room, past⟩ ++ s.lines := by
  simp [lines, events, preceded]

theorem output_preceded (past : List Event) (s : State) :
    (s.preceded past).output = State.output ⟨s.env, s.room, past⟩ ++ s.output := by
  rw [output, lines_preceded, List.map_append, String.join_append]
  rfl

/-- Only the past says what was written. -/
theorem output_eq_of_past {s s' : State} (h : s.past = s'.past) : s.output = s'.output := by
  rw [output, output, lines, lines, events, events, h]

end State

/-- Does the same whatever was before. -/
def Unmindful (run : State → Ending × State) : Prop :=
  ∀ past s, run (s.preceded past) = Prod.map id (State.preceded past) (run s)

theorem State.withValue_preceded {e : Expr} {s : State} {past : List Event}
    {next next' : Value → Ending × State}
    (h : ∀ v, next' v = Prod.map id (State.preceded past) (next v)) :
    (s.preceded past).withValue e next' = Prod.map id (State.preceded past) (s.withValue e next) := by
  unfold State.withValue
  rw [show (s.preceded past).env = s.env from rfl]
  cases e.eval s.env with
  | ok v => exact h v
  | error failure => rfl

theorem State.update_preceded (past : List Event) (s : State) (r : Except Failure Env) :
    (s.preceded past).update r = Prod.map id (State.preceded past) (s.update r) := by
  cases r <;> rfl

theorem State.print_preceded (past : List Event) (s : State) (v : Value) :
    (s.preceded past).print v = Prod.map id (State.preceded past) (s.print v) := by
  unfold State.print
  rw [show (s.preceded past).room = s.room from rfl]
  rcases s.room with _ | _ | n <;> rfl

theorem State.iterate_unmindful {test : Expr} {body : State → Ending × State} (h : Unmindful body)
    (fuel : Nat) (inner : Frame) : Unmindful (State.iterate test body fuel inner) := by
  induction fuel generalizing inner with
  | zero =>
    intro past s
    rfl
  | succ fuel ih =>
    intro past s
    rw [State.iterate, State.iterate]
    rw [show (s.preceded past).env = s.env from rfl]
    cases test.test .loop s.env with
    | error failure => rfl
    | ok taken =>
      cases taken with
      | false => rfl
      | true =>
        rw [show (s.preceded past).enter inner = (s.enter inner).preceded past from rfl, h]
        obtain ⟨ending, s'⟩ := body (s.enter inner)
        cases ending with
        | normal => exact ih s'.env.own past s'.leave
        | returned v => rfl
        | failed failure => rfl
        | outOfFuel => rfl

theorem Stmt.branch_unmindful {fuel : Nat} (test : Expr) {yes : Block} {no : Option Block}
    (inYes : Unmindful (Block.exec fuel yes)) (inNo : Unmindful (Block.exec fuel (no.getD []))) :
    Unmindful ((Stmt.branch test yes no).exec fuel) := by
  intro past s
  cases htest : test.test .branch s.env with
  | error failure =>
    rw [exec_branch_failed fuel yes no htest]
    exact exec_branch_failed fuel yes no htest
  | ok taken =>
    have inside : Unmindful (Block.exec fuel (if taken then yes else no.getD [])) := by
      cases taken with
      | true => exact inYes
      | false => exact inNo
    rw [exec_branch fuel yes no htest]
    refine (exec_branch (s := s.preceded past) fuel yes no htest).trans ?_
    exact congrArg (Prod.map id State.leave)
      (inside past ((s.emit (.branched taken)).enter Dict.empty))

mutual

/-- What a statement does depends on the bindings and the output only. -/
theorem Stmt.exec_preceded (fuel : Nat) : (stmt : Stmt) → Unmindful (stmt.exec fuel)
  | .declare name e => fun past s => by
    simp only [Stmt.exec]
    exact State.withValue_preceded fun v => State.update_preceded past (s.emit (.declared name v)) _
  | .assign name e => fun past s => by
    simp only [Stmt.exec]
    exact State.withValue_preceded fun v => State.update_preceded past s _
  | .branch test yes none =>
    Stmt.branch_unmindful test (Block.exec_preceded fuel yes) (Block.exec_preceded fuel [])
  | .branch test yes (some no) =>
    Stmt.branch_unmindful test (Block.exec_preceded fuel yes) (Block.exec_preceded fuel no)
  | .loop test body => fun past s => by
    simp only [Stmt.exec]
    exact State.iterate_unmindful (Block.exec_preceded fuel body) fuel Dict.empty past
      (s.emit .looped)
  | .print e => fun past s => by
    simp only [Stmt.exec]
    exact State.withValue_preceded fun v => State.print_preceded past s v
  | .eval e => fun past s => by
    simp only [Stmt.exec]
    exact State.withValue_preceded fun _ => rfl
  | .result e => fun past s => by
    simp only [Stmt.exec]
    exact State.withValue_preceded fun _ => rfl
  | .hole => fun past s => by
    simp only [Stmt.exec]
    rfl

theorem Block.exec_preceded (fuel : Nat) : (b : List Stmt) → Unmindful (Block.exec fuel b)
  | [] => fun _ _ => rfl
  | stmt :: rest => fun past s => by
    rw [Block.exec, Block.exec, stmt.exec_preceded fuel]
    obtain ⟨ending, s'⟩ := stmt.exec fuel s
    cases ending with
    | normal => exact Block.exec_preceded fuel rest past s'
    | returned v => rfl
    | failed failure => rfl
    | outOfFuel => rfl

end

namespace Block

theorem runFrom_preceded (fuel number : Nat) (b : Block) (past : List Event) (s : State) :
    runFrom fuel number b (s.preceded past) =
      Prod.map id (State.preceded past) (runFrom fuel number b s) := by
  induction b generalizing number s with
  | nil => rfl
  | cons stmt rest ih =>
    rw [runFrom, runFrom, stmt.exec_preceded fuel]
    obtain ⟨ending, s'⟩ := stmt.exec fuel s
    cases ending with
    | normal => exact ih (number + 1) s'
    | returned v => rfl
    | failed failure => rfl
    | outOfFuel => rfl

/-- The statements of the second part have the numbers behind those of the first. -/
theorem runFrom_append (fuel number : Nat) (p q : Block) (s : State) :
    runFrom fuel number (p ++ q) s = match runFrom fuel number p s with
      | (.finished, s') => runFrom fuel (number + p.length) q s'
      | stopped => stopped := by
  induction p generalizing number s with
  | nil => rfl
  | cons stmt rest ih =>
    rw [List.cons_append, runFrom, runFrom]
    obtain ⟨ending, s'⟩ := stmt.exec fuel s
    cases ending with
    | normal =>
      refine (ih (number + 1) s').trans ?_
      rw [List.length_cons, Nat.add_assoc, Nat.add_comm 1]
    | returned v => rfl
    | failed failure => rfl
    | outOfFuel => rfl

end Block

/-- The outcome when `n` more statements come first: a failure is that of a later statement. -/
def Outcome.later (n : Nat) : Outcome → Outcome
  | .failed k failure => .failed (n + k) failure
  | outcome => outcome

namespace Block

/-- A different first number changes the number of the statement that fails, and what is noted of a
return. -/
theorem runFrom_later (fuel number n : Nat) (b : Block) (s : State) :
    (runFrom fuel (n + number) b s).1 = (runFrom fuel number b s).1.later n ∧
    (runFrom fuel (n + number) b s).2.env = (runFrom fuel number b s).2.env ∧
    (runFrom fuel (n + number) b s).2.room = (runFrom fuel number b s).2.room ∧
    (runFrom fuel (n + number) b s).2.output = (runFrom fuel number b s).2.output := by
  induction b generalizing number s with
  | nil => exact ⟨rfl, rfl, rfl, rfl⟩
  | cons stmt rest ih =>
    rw [runFrom, runFrom]
    obtain ⟨ending, s'⟩ := stmt.exec fuel s
    cases ending with
    | normal => exact ih (number + 1) s'
    | returned v =>
      refine ⟨rfl, rfl, rfl, ?_⟩
      simp [State.output, State.lines, State.events, State.emit]
    | failed failure => exact ⟨rfl, rfl, rfl, rfl⟩
    | outOfFuel => exact ⟨rfl, rfl, rfl, rfl⟩

/-- One part after the other, each with the fuel of the whole. -/
theorem run_append_of_finished {fuel : Nat} {p : Block} {s s' : State}
    (h : run fuel p s = (.finished, s')) (q : Block) :
    (run fuel (p ++ q) s).1 = (run fuel q { env := s'.env, room := s'.room }).1.later p.length ∧
    (run fuel (p ++ q) s).2.env = (run fuel q { env := s'.env, room := s'.room }).2.env ∧
    (run fuel (p ++ q) s).2.room = (run fuel q { env := s'.env, room := s'.room }).2.room ∧
    (run fuel (p ++ q) s).2.output =
      s'.output ++ (run fuel q { env := s'.env, room := s'.room }).2.output := by
  let fresh : State := { env := s'.env, room := s'.room }
  have whole : run fuel (p ++ q) s = runFrom fuel (p.length + 1) q s' := by
    rw [run, runFrom_append, ← run, h, Nat.add_comm]
  have resumed : run fuel q s' = Prod.map id (State.preceded s'.past) (run fuel q fresh) :=
    runFrom_preceded fuel 1 q s'.past fresh
  obtain ⟨outcome, env, room, output⟩ := runFrom_later fuel 1 p.length q s'
  rw [← run, resumed] at outcome env room output
  rw [whole]
  refine ⟨outcome, env, room, output.trans ?_⟩
  exact (State.output_preceded s'.past _).trans
    (congrArg (· ++ _) (State.output_eq_of_past rfl))

theorem run_append_of_stopped {fuel : Nat} {p : Block} {s : State}
    (h : (run fuel p s).1 ≠ .finished) (q : Block) : run fuel (p ++ q) s = run fuel p s := by
  rw [run, runFrom_append, ← run]
  revert h
  obtain ⟨outcome, s'⟩ := run fuel p s
  intro h
  cases outcome with
  | finished => exact absurd rfl h
  | returned v => rfl
  | failed k failure => rfl
  | outOfFuel => rfl

theorem Diverges.append {p q : Block} {s : State} (h : Diverges p s) : Diverges (p ++ q) s := by
  intro fuel
  rw [run_append_of_stopped (by simp [h fuel]), h fuel]

theorem Ends.append_of_stopped {p : Block} {s s' : State} {outcome : Outcome}
    (h : Ends p s outcome s') (stopped : outcome ≠ .finished) (q : Block) :
    Ends (p ++ q) s outcome s' := by
  obtain ⟨running, fuel, result⟩ := h
  exact ⟨running, fuel, by rw [run_append_of_stopped (by rwa [result]), result]⟩

theorem later_ne_outOfFuel {outcome : Outcome} (h : outcome ≠ .outOfFuel) (n : Nat) :
    outcome.later n ≠ .outOfFuel := by
  cases outcome with
  | outOfFuel => exact absurd rfl h
  | _ => nofun

/-- The first part and the second may need different times; together they end within the longer. -/
theorem Ends.append {p q : Block} {s s' t : State} {outcome : Outcome}
    (first : Ends p s .finished s')
    (second : Ends q { env := s'.env, room := s'.room } outcome t) :
    ∃ t', Ends (p ++ q) s (outcome.later p.length) t' ∧ t'.env = t.env ∧ t'.room = t.room ∧
      t'.output = s'.output ++ t.output := by
  obtain ⟨n, hn⟩ := first.run_of_le
  obtain ⟨m, hm⟩ := second.run_of_le
  have result := hm (max n m) (Nat.le_max_right n m)
  obtain ⟨houtcome, env, room, output⟩ :=
    run_append_of_finished (hn (max n m) (Nat.le_max_left n m)) q
  rw [result] at houtcome env room output
  exact ⟨_, ⟨later_ne_outOfFuel second.1 _, max n m, Prod.ext houtcome rfl⟩, env, room, output⟩

/-- A part that ends cannot be what the whole runs forever in. -/
theorem Ends.append_diverges {p q : Block} {s s' : State} (first : Ends p s .finished s')
    (second : Diverges q { env := s'.env, room := s'.room }) : Diverges (p ++ q) s := by
  intro fuel
  by_cases out : (run fuel p s).1 = .outOfFuel
  · rw [run_append_of_stopped (by simp [out]), out]
  · have ends : Ends p s (run fuel p s).1 (run fuel p s).2 := ⟨out, fuel, rfl⟩
    obtain ⟨finished, left⟩ := ends.unique first
    rw [(run_append_of_finished (Prod.ext finished left) q).1, second fuel]
    rfl

/-- **A program can be run in parts.** When the first part comes to its end, the whole ends as the
second part does in the bindings that the first has left, a failing statement being counted from the
start of the whole; it leaves the same bindings, and its output is that of the first part followed
by that of the second. When the first part fails or returns, the whole does exactly the same,
whatever the second part is. The whole runs forever if the part does that it comes to. -/
theorem run_in_parts (p q : Block) (s : State) :
    (∀ s', Ends p s .finished s' →
      (∀ outcome t, Ends q { env := s'.env, room := s'.room } outcome t →
        ∃ t', Ends (p ++ q) s (outcome.later p.length) t' ∧ t'.env = t.env ∧ t'.room = t.room ∧
          t'.output = s'.output ++ t.output) ∧
      (Diverges q { env := s'.env, room := s'.room } → Diverges (p ++ q) s)) ∧
    (∀ outcome s', outcome ≠ .finished → Ends p s outcome s' → Ends (p ++ q) s outcome s') ∧
    (Diverges p s → Diverges (p ++ q) s) := by
  refine ⟨fun s' first => ⟨?_, first.append_diverges⟩, ?_, Diverges.append⟩
  · intro outcome t second
    exact first.append second
  · intro outcome s' stopped first
    exact first.append_of_stopped stopped q

/-- The second statement of the second part fails, the fourth of the whole. -/
theorem run_in_parts_failing :
    ∃ t, Ends ([.declare "x" (.bool true), .print (.variable "x")] ++
        [.print (.variable "x"), .assign "y" (.variable "x")]) { env := .root }
      (.failed 4 (.undeclared "y")) t ∧ t.output = "true\ntrue\n" := by
  let p : Block := [.declare "x" (.bool true), .print (.variable "x")]
  let q : Block := [.print (.variable "x"), .assign "y" (.variable "x")]
  let s' := (run 0 p { env := .root }).2
  let t := (run 0 q { env := s'.env, room := s'.room }).2
  have first : Ends p { env := .root } .finished s' := ⟨by decide, 0, Prod.ext (by decide) rfl⟩
  have second : Ends q { env := s'.env, room := s'.room } (.failed 2 (.undeclared "y")) t :=
    ⟨by decide, 0, Prod.ext (by decide) rfl⟩
  obtain ⟨t', ends, -, -, output⟩ := ((run_in_parts p q { env := .root }).1 s' first).1 _ t second
  exact ⟨t', ends, output.trans (by decide)⟩

end Block

end LetWhile
