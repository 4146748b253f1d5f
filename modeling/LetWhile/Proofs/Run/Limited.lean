import LetWhile.Proofs.Run.Bindings
import LetWhile.Proofs.Run.Kept

/-!
# Output that comes to an end

A run whose output takes `n` lines and refuses all later ones does what it would do without the
limit, up to the print that is refused; there it fails, out of all the blocks around the print
(`Stmt.exec_curbs`, `Block.exec_curbs`). Main result: `Block.run_until_refused`.
-/

namespace LetWhile

def Event.isPrint : Event → Bool
  | .printed _ => true
  | _ => false

/-- How many lines were printed. -/
def prints (past : List Event) : Nat := past.countP Event.isPrint

@[simp] theorem prints_cons (e : Event) (past : List Event) :
    prints (e :: past) = prints past + if e.isPrint then 1 else 0 := by
  rw [prints, List.countP_cons, prints]

theorem prints_append (later past : List Event) : prints (later ++ past) = prints later + prints past :=
  List.countP_append

namespace State

theorem length_lines (s : State) : s.lines.length = prints s.past := by
  rw [lines, events, List.length_filterMap_eq_countP, List.countP_reverse, prints]
  congr 1
  funext e
  cases e <;> rfl

/-- What was printed first comes first. -/
theorem lines_of_past {s s' : State} {later : List Event} {v : Value}
    (h : s.past = later ++ .printed v :: s'.past) :
    s.lines = s'.lines ++ (v.text :: State.lines ⟨s.env, s.room, later⟩) := by
  simp [lines, events, h]

/-- The state in a run that may print `n` lines in all. -/
def limited (n : Nat) (s : State) : State := { s with room := some (n - prints s.past) }

theorem emit_limited {e : Event} (quiet : e.isPrint = false) (n : Nat) (s : State) :
    (s.limited n).emit e = (s.emit e).limited n := by
  simp [limited, emit, quiet]

/-- The output has no limit, and everything in `past` has happened. -/
def Since (past : List Event) (s : State) : Prop := s.room = none ∧ ∃ later, s.past = later ++ past

theorem since_self {s : State} (unlimited : s.room = none) : Since s.past s := ⟨unlimited, [], rfl⟩

theorem lasting_since (past : List Event) : Lasting (Since past) where
  bind _ h := h
  emit e h := by
    obtain ⟨unlimited, later, same⟩ := h
    exact ⟨unlimited, e :: later, congrArg (e :: ·) same⟩
  print v h := by
    obtain ⟨unlimited, later, same⟩ := h
    unfold State.print
    rw [unlimited]
    exact ⟨unlimited, .printed v :: later, congrArg (_ :: ·) same⟩

end State

/-- What becomes of a run when it may print `n` lines in all. If it prints no more, everything stays
the same. Otherwise it fails where it would have printed one more line, whatever it would have done
behind that. -/
inductive Curbed (n : Nat) : Ending × State → Ending × State → Prop where
  | same {ending : Ending} {s : State} (unlimited : s.room = none) (fits : prints s.past ≤ n) :
      Curbed n (ending, s) (ending, s.limited n)
  | cut {ending : Ending} {s s' : State} {later : List Event} {v : Value} (unlimited : s.room = none)
      (more : s.past = later ++ .printed v :: s'.past) (full : prints s'.past = n)
      (closed : s'.room = some 0) : Curbed n (ending, s) (.failed .writeFailed, s')

def Curbs (run : State → Ending × State) : Prop :=
  ∀ n s, s.room = none → prints s.past ≤ n → Curbed n (run s) (run (s.limited n))

/-- Goes on behind a normal ending, and leaves otherwise. -/
def followed (leave : Env → Env) (next : State → Ending × State) :
    Ending × State → Ending × State
  | (.normal, s) => next s
  | (ending, s) => (ending, { s with env := leave s.env })

section

variable {n : Nat} {s : State}

/-- What follows is curbed in its turn, or is not come to. -/
theorem Curbed.followed {r r' : Ending × State} (h : Curbed n r r') (leave : Env → Env)
    (next : State → Ending × State) (curbs : Curbs next)
    (keeps : ∀ past s, s.Since past → (next s).2.Since past) :
    Curbed n (followed leave next r) (LetWhile.followed leave next r') := by
  cases h with
  | @same ending s unlimited fits =>
    cases ending with
    | normal => exact curbs n s unlimited fits
    | _ => exact .same (s := { s with env := leave s.env }) unlimited fits
  | @cut ending s s' later v unlimited more full closed =>
    cases ending with
    | normal =>
      obtain ⟨unlimited', later', past⟩ := keeps s.past s (State.since_self unlimited)
      rw [more, ← List.append_assoc] at past
      exact .cut unlimited' past full closed
    | _ => exact .cut (s := { s with env := leave s.env }) unlimited more full closed

theorem Curbed.leave {r r' : Ending × State} (h : Curbed n r r') :
    Curbed n (Prod.map id State.leave r) (Prod.map id State.leave r') := by
  cases h with
  | @same ending s unlimited fits => exact .same (s := s.leave) unlimited fits
  | @cut ending s s' later v unlimited more full closed =>
    change Curbed n (ending, s.leave) (.failed .writeFailed, s'.leave)
    exact .cut unlimited more full closed

theorem State.withValue_curbed (e : Expr) {next next' : Value → Ending × State}
    (unlimited : s.room = none) (fits : prints s.past ≤ n) (h : ∀ v, Curbed n (next v) (next' v)) :
    Curbed n (s.withValue e next) ((s.limited n).withValue e next') := by
  unfold State.withValue
  rw [show (s.limited n).env = s.env from rfl]
  cases e.eval s.env with
  | ok v => exact h v
  | error failure => exact .same unlimited fits

theorem State.update_curbed (r : Except Failure Env) (unlimited : s.room = none)
    (fits : prints s.past ≤ n) : Curbed n (s.update r) ((s.limited n).update r) := by
  cases r with
  | ok env => exact .same (s := { s with env }) unlimited fits
  | error failure => exact .same unlimited fits

theorem State.print_unlimited (v : Value) (unlimited : s.room = none) :
    s.print v = (.normal, s.emit (.printed v)) := by
  unfold State.print
  rw [unlimited]

theorem State.print_refused (v : Value) (full : prints s.past = n) :
    (s.limited n).print v = (.failed .writeFailed, s.limited n) := by
  unfold State.print
  rw [show (s.limited n).room = some (n - prints s.past) from rfl, full, Nat.sub_self]

theorem State.print_taken (v : Value) (room : prints s.past < n) :
    (s.limited n).print v = (.normal, (s.emit (.printed v)).limited n) := by
  obtain ⟨k, rfl⟩ : ∃ k, n = prints s.past + (k + 1) := ⟨n - prints s.past - 1, by omega⟩
  have before : (s.limited (prints s.past + (k + 1))).room = some (k + 1) := by
    simp [limited]
  have behind : (s.emit (.printed v)).limited (prints s.past + (k + 1)) =
      { s.emit (.printed v) with room := some k } := by
    simp only [limited, emit, prints_cons, Event.isPrint, if_true]
    congr 2
    omega
  unfold State.print
  rw [before, behind]
  rfl

/-- The line is taken, or it is the one that is refused. -/
theorem State.print_curbed (v : Value) (unlimited : s.room = none) (fits : prints s.past ≤ n) :
    Curbed n (s.print v) ((s.limited n).print v) := by
  rw [print_unlimited v unlimited]
  by_cases full : prints s.past = n
  · rw [print_refused v full]
    have past : (s.emit (.printed v)).past = [] ++ .printed v :: s.past := rfl
    have closed : (s.limited n).room = some 0 := by
      rw [limited, full, Nat.sub_self]
    exact .cut unlimited past full closed
  · have room : prints s.past < n := Nat.lt_of_le_of_ne fits full
    rw [print_taken v room]
    refine .same (s := s.emit (.printed v)) unlimited ?_
    rw [emit, prints_cons]
    exact room

/-- Loops are cut inside one of their passes. -/
theorem State.iterate_curbs (test : Expr) {fuel : Nat} {body : Block}
    (curbs : Curbs (Block.exec fuel body)) (passes : Nat) (inner : Frame) :
    Curbs (State.iterate test (Block.exec fuel body) passes inner) := by
  induction passes generalizing inner with
  | zero =>
    intro n s unlimited fits
    exact .same unlimited fits
  | succ passes ih =>
    intro n s unlimited fits
    rw [State.iterate, State.iterate, show (s.limited n).env = s.env from rfl]
    cases test.test .loop s.env with
    | error failure => exact .same unlimited fits
    | ok taken =>
      cases taken with
      | false => exact .same unlimited fits
      | true =>
        have pass := curbs n (s.enter inner) unlimited fits
        apply pass.followed Env.leave fun s =>
          s.leave.iterate test (Block.exec fuel body) passes s.env.own
        · intro n s unlimited fits
          exact ih s.env.own n s.leave unlimited fits
        · intro past s h
          exact State.iterate_kept (State.lasting_since past) test
            (Block.exec_kept (State.lasting_since past) fuel body) passes s.env.own (s := s.leave) h

theorem Stmt.branch_curbs {fuel : Nat} (test : Expr) {yes : Block} {no : Option Block}
    (inYes : Curbs (Block.exec fuel yes)) (inNo : Curbs (Block.exec fuel (no.getD []))) :
    Curbs ((Stmt.branch test yes no).exec fuel) := by
  intro n s unlimited fits
  have same : test.test .branch (s.limited n).env = test.test .branch s.env := rfl
  cases htest : test.test .branch s.env with
  | error failure =>
    rw [exec_branch_failed fuel yes no htest, exec_branch_failed fuel yes no (same.trans htest)]
    exact .same unlimited fits
  | ok taken =>
    have inside : Curbs (Block.exec fuel (if taken then yes else no.getD [])) := by
      cases taken with
      | true => exact inYes
      | false => exact inNo
    rw [exec_branch fuel yes no htest, exec_branch fuel yes no (same.trans htest),
      State.emit_limited rfl]
    exact (inside n ((s.emit (.branched taken)).enter Dict.empty) unlimited fits).leave

theorem Block.curbs_cons {fuel : Nat} {stmt : Stmt} {rest : Block} (first : Curbs (stmt.exec fuel))
    (others : Curbs (Block.exec fuel rest)) : Curbs (Block.exec fuel (stmt :: rest)) := by
  intro n s unlimited fits
  have both := (first n s unlimited fits).followed id (Block.exec fuel rest) others
    fun past => Block.exec_kept (State.lasting_since past) fuel rest
  have step (s : State) : Block.exec fuel (stmt :: rest) s =
      followed id (Block.exec fuel rest) (stmt.exec fuel s) := by
    rw [Block.exec]
    obtain ⟨ending, s'⟩ := stmt.exec fuel s
    cases ending <;> rfl
  rwa [step, step]

end

mutual

/-- Every statement is curbed, whatever is inside it. -/
theorem Stmt.exec_curbs (fuel : Nat) : (stmt : Stmt) → Curbs (stmt.exec fuel)
  | .declare name e => fun n s unlimited fits => by
    simp only [Stmt.exec]
    refine State.withValue_curbed e unlimited fits fun v => ?_
    rw [State.emit_limited rfl]
    exact State.update_curbed (s := s.emit (.declared name v)) _ unlimited fits
  | .assign name e => fun n s unlimited fits => by
    simp only [Stmt.exec]
    exact State.withValue_curbed e unlimited fits fun v => State.update_curbed _ unlimited fits
  | .branch test yes none =>
    Stmt.branch_curbs test (Block.exec_curbs fuel yes) (Block.exec_curbs fuel [])
  | .branch test yes (some no) =>
    Stmt.branch_curbs test (Block.exec_curbs fuel yes) (Block.exec_curbs fuel no)
  | .loop test body => fun n s unlimited fits => by
    simp only [Stmt.exec]
    rw [State.emit_limited rfl]
    exact State.iterate_curbs test (Block.exec_curbs fuel body) fuel Dict.empty n (s.emit .looped)
      unlimited fits
  | .print e => fun n s unlimited fits => by
    simp only [Stmt.exec]
    exact State.withValue_curbed e unlimited fits fun v => State.print_curbed v unlimited fits
  | .eval e | .result e => fun n s unlimited fits => by
    simp only [Stmt.exec]
    exact State.withValue_curbed e unlimited fits fun v => .same unlimited fits
  | .hole => fun n s unlimited fits => by
    simp only [Stmt.exec]
    exact .same unlimited fits

theorem Block.exec_curbs (fuel : Nat) : (b : List Stmt) → Curbs (Block.exec fuel b)
  | [] => fun _ _ unlimited fits => .same unlimited fits
  | stmt :: rest => Block.curbs_cons (stmt.exec_curbs fuel) (Block.exec_curbs fuel rest)

end

namespace Block

variable {fuel number n : Nat} {b : List Stmt} {s : State}

/-- The program prints `n` lines at most, and the limit makes no difference. -/
def SameWithin (n : Nat) (full cut : Outcome × State) : Prop :=
  prints full.2.past ≤ n ∧ cut = (full.1, full.2.limited n)

/-- The program stops in one of its statements, where one more line than the first `n` would have
been printed. -/
structure StopsAtPrint (fuel number n : Nat) (b : List Stmt) (s : State) (full cut : Outcome × State) :
    Prop where
  /-- The statement that prints this line, and what comes before it. -/
  statement : ∃ before stmt after s₁, b = before ++ stmt :: after ∧
    runFrom fuel number before s = (.finished, s₁) ∧ prints s₁.past ≤ n ∧
    n < prints (stmt.exec fuel s₁).2.past ∧
    cut.1 = .failed (number + before.length) .writeFailed
  /-- Everything that happened before it. -/
  past : ∃ later v, full.2.past = later ++ .printed v :: cut.2.past
  printed : prints cut.2.past = n
  closed : cut.2.room = some 0

theorem StopsAtPrint.more {full cut : Outcome × State} (h : StopsAtPrint fuel number n b s full cut) :
    n < prints full.2.past := by
  obtain ⟨later, v, past⟩ := h.past
  rw [past, prints_append, prints_cons, h.printed, Event.isPrint]
  simp only [if_true]
  omega

theorem StopsAtPrint.next {stmt : Stmt} {s₁ : State} {full cut : Outcome × State}
    (first : stmt.exec fuel s = (.normal, s₁)) (h : StopsAtPrint fuel (number + 1) n b s₁ full cut) :
    StopsAtPrint fuel number n (stmt :: b) s full cut := by
  obtain ⟨⟨before, stmt', after, s₂, rfl, finished, fits, more, failed⟩, past, printed, closed⟩ :=
    h
  refine ⟨⟨stmt :: before, stmt', after, s₂, rfl, ?_, fits, more, ?_⟩, past, printed, closed⟩
  · rw [runFrom, first]
    exact finished
  · rw [failed, List.length_cons, Nat.add_assoc, Nat.add_comm 1]

/-- What the first statement has done is not forgotten. -/
theorem runFrom_since (fuel number : Nat) (stmt : Stmt) (rest : List Stmt) {s : State}
    (unlimited : (stmt.exec fuel s).2.room = none) :
    (runFrom fuel number (stmt :: rest) s).2.Since (stmt.exec fuel s).2.past := by
  have now := State.since_self unlimited
  have lasting := State.lasting_since (stmt.exec fuel s).2.past
  rw [runFrom]
  revert now lasting
  obtain ⟨ending, s₁⟩ := stmt.exec fuel s
  intro now lasting
  cases ending with
  | normal => exact runFrom_kept lasting fuel (number + 1) rest now
  | returned v => exact lasting.emit _ now
  | failed failure => exact now
  | outOfFuel => exact now

/-- A program does the same with room for `n` lines, or stops at the print of one more. -/
theorem runFrom_limited (fuel number n : Nat) (b : List Stmt) (s : State) (unlimited : s.room = none)
    (fits : prints s.past ≤ n) :
    SameWithin n (runFrom fuel number b s) (runFrom fuel number b (s.limited n)) ∨
      StopsAtPrint fuel number n b s (runFrom fuel number b s)
        (runFrom fuel number b (s.limited n)) := by
  induction b generalizing number s with
  | nil => exact .inl ⟨fits, rfl⟩
  | cons stmt rest ih =>
    have since := runFrom_since fuel number stmt rest (s := s)
    have first := stmt.exec_curbs fuel n s unlimited fits
    generalize hexec : stmt.exec fuel s = r at first since
    generalize hexec' : stmt.exec fuel (s.limited n) = r' at first
    cases first with
    | @same ending s₁ unlimited fits =>
      cases ending with
      | normal =>
        have hfull : runFrom fuel number (stmt :: rest) s = runFrom fuel (number + 1) rest s₁ := by
          rw [runFrom, hexec]
        have hcut : runFrom fuel number (stmt :: rest) (s.limited n) =
            runFrom fuel (number + 1) rest (s₁.limited n) := by
          rw [runFrom, hexec']
        rw [hfull, hcut]
        exact (ih (number + 1) s₁ unlimited fits).imp_right fun stops => stops.next hexec
      | returned v =>
        left
        rw [runFrom, runFrom, hexec, hexec']
        exact ⟨fits, congrArg (Prod.mk _) (State.emit_limited rfl n s₁)⟩
      | failed failure =>
        left
        rw [runFrom, runFrom, hexec, hexec']
        exact ⟨fits, rfl⟩
      | outOfFuel =>
        left
        rw [runFrom, runFrom, hexec, hexec']
        exact ⟨fits, rfl⟩
    | @cut ending s₁ s' later v unlimited more printed closed =>
      right
      obtain ⟨-, later', past⟩ := since unlimited
      have stopped : runFrom fuel number (stmt :: rest) (s.limited n) =
          (.failed number .writeFailed, s') := by
        rw [runFrom, hexec']
      have beyond : n < prints (stmt.exec fuel s).2.past := by
        rw [hexec, more, prints_append, prints_cons, printed, Event.isPrint]
        simp only [if_true]
        omega
      rw [stopped]
      refine ⟨⟨[], stmt, rest, s, rfl, rfl, fits, beyond, rfl⟩, ⟨later' ++ later, v, ?_⟩, printed,
        closed⟩
      rw [List.append_assoc, ← more]
      exact past

section

variable {program : Block} {env : Env} {outcome : Outcome}

theorem run_within (result : run fuel program { env } = (outcome, s)) (fits : s.lines.length ≤ n) :
    run fuel program { env, room := some n } = (outcome, s.limited n) := by
  rw [State.length_lines] at fits
  rcases runFrom_limited fuel 1 n program { env } rfl (Nat.zero_le n) with same | stops
  · rw [← run, result] at same
    exact same.2
  · rw [← run, result] at stops
    exact absurd fits (Nat.not_le_of_lt stops.more)

/-- A program whose output has room enough, or no limit. -/
theorem run_fitting (room : Option Nat) (result : run fuel program { env } = (outcome, s))
    (fits : ∀ n, room = some n → s.lines.length ≤ n) :
    run fuel program { env, room } = (outcome, { s with room := room.map (· - s.lines.length) }) := by
  cases room with
  | none => rw [result, Option.map_none, ← run_unlimited result]
  | some n =>
    rw [run_within result (fits n rfl), State.limited, State.length_lines]
    rfl

theorem run_beyond (result : run fuel program { env } = (outcome, s)) (more : n < s.lines.length) :
    StopsAtPrint fuel 1 n program { env } (outcome, s) (run fuel program { env, room := some n }) := by
  rw [State.length_lines] at more
  rcases runFrom_limited fuel 1 n program { env } rfl (Nat.zero_le n) with same | stops
  · rw [← run, result] at same
    exact absurd same.1 (Nat.not_le_of_lt more)
  · rw [← run, result] at stops
    exact stops

end

/-- **An output that ends only cuts a run short.** Compare the run of a program whose output takes
`n` lines and refuses all later ones with the run without this limit. If that prints `n` lines at
most, both end alike, with the same bindings, and the same has happened; or both go on forever, and
the same has happened at every time. If it prints more, at any time, the run with the limit fails
since a line was refused, and its output is the first `n` lines. It fails with the number of the
statement in which the other run prints its next line: the statements before this one come to their
end with at most `n` lines, and with this one there are more. What has happened until then is what
has happened in the other run until that print. -/
theorem run_until_refused (program : Block) (env : Env) (n : Nat) :
    (∀ outcome s, Ends program { env } outcome s → s.lines.length ≤ n →
      Ends program { env, room := some n } outcome
        { s with room := some (n - s.lines.length) }) ∧
    (Diverges program { env } → (∀ fuel, (run fuel program { env }).2.lines.length ≤ n) →
      Diverges program { env, room := some n } ∧
      ∀ fuel, (run fuel program { env, room := some n }).2.past =
        (run fuel program { env }).2.past) ∧
    (∀ fuel, n < (run fuel program { env }).2.lines.length →
      ∃ before stmt after s₁ s, program = before ++ stmt :: after ∧
        Ends before { env } .finished s₁ ∧ s₁.lines.length ≤ n ∧
        n < (stmt.exec fuel s₁).2.lines.length ∧
        Ends program { env, room := some n } (.failed (before.length + 1) .writeFailed) s ∧
        (Outcome.failed (before.length + 1) .writeFailed).message? =
          some s!"statement {before.length + 1}: {Failure.writeFailed.message}" ∧
        s.lines = (run fuel program { env }).2.lines.take n ∧
        ∃ later v, (run fuel program { env }).2.past = later ++ .printed v :: s.past) := by
  refine ⟨?_, ?_, ?_⟩
  · rintro outcome s ⟨running, fuel, result⟩ fits
    have same := run_within result fits
    rw [State.length_lines]
    exact ⟨running, fuel, same⟩
  · intro diverges fits
    constructor
    · intro fuel
      rw [run_within rfl (fits fuel)]
      exact diverges fuel
    · intro fuel
      rw [run_within rfl (fits fuel)]
      rfl
  · intro fuel more
    generalize result : run fuel program { env } = r at more ⊢
    obtain ⟨outcome, s⟩ := r
    obtain ⟨⟨before, stmt, after, s₁, split, finished, fits, beyond, failed⟩, past, printed, -⟩ :=
      run_beyond result more
    refine ⟨before, stmt, after, s₁, (run fuel program { env, room := some n }).2, split,
      ⟨nofun, fuel, finished⟩, ?_, ?_, ⟨nofun, fuel, ?_⟩, rfl, ?_, past⟩
    · rwa [State.length_lines]
    · rwa [State.length_lines]
    · rw [Nat.add_comm]
      exact Prod.ext failed rfl
    · obtain ⟨later, v, past⟩ := past
      rw [State.lines_of_past past, List.take_left']
      rwa [State.length_lines]

/-- The third print is refused, the second of a branch. -/
theorem run_until_refused_in_branch :
    let printing : Block := [.print (.bool true), .branch (.bool true)
      [.print (.bool false), .print (.bool true), .declare "x" (.bool true)] none,
      .declare "y" (.bool true)]
    ∃ s, Ends printing { env := .root, room := some 2 } (.failed 2 .writeFailed) s ∧
      s.lines = ["true", "false"] ∧ s.env = .root := by
  intro printing
  let cut := run 0 printing { env := .root, room := some 2 }
  have direct : Ends printing { env := .root, room := some 2 } (.failed 2 .writeFailed) cut.2 :=
    ⟨nofun, 0, Prod.ext (by decide) rfl⟩
  obtain ⟨before, stmt, after, s₁, s, -, -, -, -, ends, -, lines, -⟩ :=
    (run_until_refused printing .root 2).2.2 0 (by decide)
  obtain ⟨number, rfl⟩ := ends.unique direct
  rw [number] at ends
  exact ⟨_, ends, lines.trans (by decide), rfl⟩

end Block

end LetWhile
