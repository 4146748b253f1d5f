import LetWhile.Proofs.Grammar.Program
import LetWhile.Proofs.Layout
import LetWhile.Proofs.Run.Limited
import LetWhile.Proofs.Run.Sequence
import LetWhile.Proofs.Sink
import LetWhile.Session
import Mathlib

/-!
# Sessions

A session runs its lines one by one on the bindings that it keeps. Whatever its output takes is the
first part of what the session shows when nothing is refused; and as long as nothing is refused, the
bindings are the same too (`Session.run_row`).

As long as no line fails or returns, and nothing is refused, a session is a run of one program, made
of the statements of all lines that parse; beside what this program prints, the session shows the
values of bare expressions and the errors of the lines that do not parse (`Session.run_program`).
-/

namespace LetWhile

namespace Session

variable {fuel : Nat} {text : String} {program : Block} {errors : List SyntaxError}

/-! ## Lines -/

/-- A blank line is an empty program. -/
theorem parse_blank (blank : Text.isBlank text) : parse text = .ok [] := by
  let source : Source := { file := sourceName, chars := text.toList }
  have written : Written [] source.chars := .nil (List.all_eq_true.1 blank)
  obtain ⟨ts, last, after, scan, words, finish⟩ := source.scan_written rfl written nofun
  rw [List.map_eq_nil_iff] at words
  subst words
  have parsed : Parsed.ofSource source = Parsed.ofFeed [] { tokens := [], finish := last.loc } := by
    rw [Parsed.ofSource, scan]
    exact Parsed.ofTokens_append_end nofun finish
  have empty := Parsed.ofFeed_complete [] (f := { tokens := [], finish := last.loc }) rfl
  unfold parse
  change (Parsed.ofSource source).program = .ok []
  rw [parsed, empty]
  rfl

theorem step_of_error (h : parse text = .error errors) (fuel : Nat) (s : Session) :
    step fuel s text = s.tell (.rejected errors) := by
  have shown : ¬ Text.isBlank text := by
    intro blank
    rw [parse_blank blank] at h
    cases h
  rw [step, if_neg shown, h]

theorem step_of_ok (h : parse text = .ok program) (fuel : Nat) (s : Session) :
    step fuel s text = exec fuel s program := by
  rw [step]
  split
  · rename_i blank
    rw [parse_blank blank] at h
    cases h
    rfl
  · rw [h]

/-! ## What is shown, with and without a limit -/

theorem length_printed (s : State) : (printed s).length = s.lines.length := by
  rw [printed, State.lines, List.length_filterMap_eq_countP, List.length_filterMap_eq_countP]
  congr 1
  funext e
  cases e <;> rfl

/-- What was printed first comes first. -/
theorem printed_of_past {s s' : State} {later : List Event} {v : Value}
    (h : s.past = later ++ .printed v :: s'.past) :
    printed s = printed s' ++ (.printed v :: printed ⟨s.env, s.room, later⟩) := by
  simp [printed, State.events, h]

theorem shown_after {s t : Session} {row : List Shown} (out : t.out = s.out.after row) :
    t.shown = s.shown ++ s.out.taken row := by
  rw [shown, out, Sink.contents_after]
  rfl

theorem tell_out (s : Session) (x : Shown) : (s.tell x).out = s.out.after [x] := s.out.offers_eq [x]

theorem shown_tell_fresh (env : Env) (x : Shown) : (tell { env } x).shown = [x] :=
  shown_after (tell_out { env } x)

theorem conclude_env (s : Session) (r : Outcome × State) : (s.conclude r).env = r.2.env := by
  rw [conclude]
  cases Shown.ofOutcome? r.1 <;> rfl

/-- The outcome of a run is one more write. -/
theorem conclude_out (s : Session) (r : Outcome × State) :
    (s.conclude r).out =
      (Sink.mk r.2.room ((printed r.2).reverse ++ s.out.written)).after
        (Shown.ofOutcome? r.1).toList := by
  rw [conclude]
  cases Shown.ofOutcome? r.1 with
  | none => exact (Sink.after_nil _).symm
  | some x => exact tell_out _ x

theorem shown_conclude_fresh (env : Env) {r : Outcome × State} (unlimited : r.2.room = none) :
    (conclude { env } r).shown = printed r.2 ++ (Shown.ofOutcome? r.1).toList := by
  rw [shown, conclude_out, unlimited, Sink.contents_after]
  simp [Sink.contents, Sink.taken]

/-- What is printed in a run is the first part of what is printed without a limit; the run ends in
the same way if this is all of it. -/
theorem run_printed {env : Env} {outcome : Outcome} {t : State}
    (full : Block.run fuel program { env } = (outcome, t)) (out : Sink Shown) :
    ∃ outcome' t', Block.run fuel program { env, room := out.room } = (outcome', t') ∧
      Sink.mk t'.room ((printed t').reverse ++ out.written) = out.after (printed t) ∧
      (out.Fits (printed t) → outcome' = outcome ∧ t'.env = t.env) := by
  by_cases fits : out.Fits (printed t)
  · have same := Block.run_fitting out.room full fun n room => by
      rw [← length_printed]
      exact fits n room
    refine ⟨_, _, same, ?_, fun _ => ⟨rfl, rfl⟩⟩
    rw [Sink.after, Sink.taken_of_fits fits, length_printed]
    rfl
  · obtain ⟨n, room, more⟩ : ∃ n, out.room = some n ∧ n < t.lines.length := by
      rw [Sink.Fits, length_printed] at fits
      push Not at fits
      exact fits
    have stops := Block.run_beyond full more
    rw [← room] at stops
    generalize Block.run fuel program { env, room := out.room } = cut at stops ⊢
    refine ⟨_, _, rfl, ?_, fun taken => absurd taken fits⟩
    obtain ⟨later, v, past⟩ := stops.past
    have first : printed cut.2 = (printed t).take n := by
      have length : (printed cut.2).length = n := by
        rw [length_printed, State.length_lines]
        exact stops.printed
      rw [printed_of_past past, List.take_left' length]
    have none : n - (printed t).length = 0 := by
      rw [length_printed]
      omega
    rw [stops.closed, first, Sink.after, Sink.taken, room, Option.map_some, none]
    rfl

/-- A program that is refused a print fails, but there is no room to tell it. -/
theorem exec_row (fuel : Nat) (s : Session) (program : Block) :
    (exec fuel s program).out = s.out.after (exec fuel { env := s.env } program).shown ∧
    (s.out.Fits (exec fuel { env := s.env } program).shown →
      (exec fuel s program).env = (exec fuel { env := s.env } program).env) := by
  unfold exec
  split
  · rw [shown_tell_fresh, tell_out]
    exact ⟨rfl, fun _ => rfl⟩
  · generalize full : Block.run fuel program { env := s.env } = r
    obtain ⟨outcome, t⟩ := r
    obtain ⟨outcome', t', cut, first, same⟩ := run_printed full s.out
    rw [cut, shown_conclude_fresh s.env (Block.run_unlimited full), conclude_out, conclude_env,
      conclude_env, first, Sink.after_append, Sink.fits_append]
    refine ⟨?_, fun fits => (same fits.1).2⟩
    by_cases fits : s.out.Fits (printed t)
    · rw [(same fits).1]
    · rw [Sink.after_of_not_fits fits, Sink.after_of_not_fits fits]

/-- A line shows the first part of what it shows without a limit, and leaves the same bindings if
this is all of it. -/
theorem step_row (fuel : Nat) (s : Session) (text : String) :
    (step fuel s text).out = s.out.after (step fuel { env := s.env } text).shown ∧
    (s.out.Fits (step fuel { env := s.env } text).shown →
      (step fuel s text).env = (step fuel { env := s.env } text).env) := by
  cases parsed : parse text with
  | error errors =>
    rw [step_of_error parsed, step_of_error parsed, shown_tell_fresh, tell_out]
    exact ⟨rfl, fun _ => rfl⟩
  | ok program =>
    rw [step_of_ok parsed, step_of_ok parsed]
    exact exec_row fuel s program

/-- The reader fails at the same place, whatever the session does. -/
theorem run_error (fuel : Nat) (s s' : Session) (inputs : List Input) :
    (run fuel s inputs).error = (run fuel s' inputs).error := by
  induction inputs generalizing s s' with
  | nil => rfl
  | cons input rest ih =>
    cases input with
    | failure message => rfl
    | interrupt => exact ih s s'
    | line text => exact ih _ _

theorem step_unlimited (fuel : Nat) (env : Env) (text : String) :
    (step fuel { env } text).out.room = none := by
  rw [(step_row fuel { env } text).1]
  rfl

/-- A session shows the first part of what it shows without a limit, and leaves the same bindings if
this is all of it. -/
theorem run_row (fuel : Nat) (s : Session) (inputs : List Input) :
    (run fuel s inputs).out = s.out.after (run fuel { env := s.env } inputs).shown ∧
    (s.out.Fits (run fuel { env := s.env } inputs).shown →
      (run fuel s inputs).env = (run fuel { env := s.env } inputs).env) := by
  induction inputs generalizing s with
  | nil => exact ⟨(s.out.after_nil).symm, fun _ => rfl⟩
  | cons input rest ih =>
    cases input with
    | failure message => exact ⟨(s.out.after_nil).symm, fun _ => rfl⟩
    | interrupt => exact ih s
    | line text =>
      let u := step fuel { env := s.env } text
      have unlimited := Sink.fits_of_unlimited (step_unlimited fuel s.env text)
      obtain ⟨out, same⟩ := step_row fuel s text
      obtain ⟨limited, limitedEnv⟩ := ih (step fuel s text)
      obtain ⟨full, fullEnv⟩ := ih u
      have whole : (run fuel u rest).shown = u.shown ++ (run fuel { env := u.env } rest).shown := by
        rw [shown_after full, Sink.taken_of_fits (unlimited _)]
      change (run fuel (step fuel s text) rest).out = s.out.after (run fuel u rest).shown ∧
        (s.out.Fits (run fuel u rest).shown →
          (run fuel (step fuel s text) rest).env = (run fuel u rest).env)
      rw [whole, Sink.after_append, Sink.fits_append, limited, out]
      by_cases fits : s.out.Fits u.shown
      · rw [same fits]
        refine ⟨rfl, fun more => ?_⟩
        rw [limitedEnv, fullEnv (unlimited _), same fits]
        rw [out, same fits]
        exact more.2
      · rw [Sink.after_of_not_fits fits, Sink.after_of_not_fits fits]
        exact ⟨rfl, fun more => absurd more.1 fits⟩

theorem run_line (fuel : Nat) (env : Env) (text : String) (rest : List Input) :
    (run fuel { env } (.line text :: rest)).shown = (step fuel { env } text).shown ++
      (run fuel { env := (step fuel { env } text).env } rest).shown ∧
    (run fuel { env } (.line text :: rest)).env =
      (run fuel { env := (step fuel { env } text).env } rest).env := by
  have unlimited := Sink.fits_of_unlimited (step_unlimited fuel env text)
  obtain ⟨out, same⟩ := run_row fuel (step fuel { env } text) rest
  refine ⟨?_, same (unlimited _)⟩
  change (run fuel (step fuel { env } text) rest).shown = _
  rw [shown_after out, Sink.taken_of_fits (unlimited _)]

/-! ## Time -/

/-- The program in a line, if it has one, ends within the fuel. -/
def LineInTime (fuel : Nat) (s : Session) (text : String) : Prop :=
  ∀ program, parse text = .ok program →
    (Block.run fuel program { env := s.env, room := s.out.room }).1 ≠ .outOfFuel

theorem LineInTime.of_ok {s : Session} (h : parse text = .ok program)
    (ends : (Block.run fuel program { env := s.env, room := s.out.room }).1 ≠ .outOfFuel) :
    LineInTime fuel s text := by
  intro program' h'
  rw [h] at h'
  cases h'
  exact ends

theorem LineInTime.of_error {s : Session} (h : parse text = .error errors) :
    LineInTime fuel s text := by
  intro program h'
  rw [h] at h'
  cases h'

/-- Every line that the session comes to ends within the fuel. -/
def InTime (fuel : Nat) (s : Session) : List Input → Prop
  | [] => True
  | .interrupt :: rest => InTime fuel s rest
  | .failure _ :: _ => True
  | .line text :: rest => LineInTime fuel s text ∧ InTime fuel (step fuel s text) rest

/-- The session ends, whatever time it takes. -/
def Ends (s : Session) (inputs : List Input) (r : Result) : Prop :=
  ∃ fuel, InTime fuel s inputs ∧ run fuel s inputs = r

theorem run_eval (fuel : Nat) (e : Expr) (s : State) :
    Block.run fuel [.eval e] s = match e.eval s.env with
      | .ok _ => (.finished, s)
      | .error failure => (.failed 1 failure, s) := by
  simp only [Block.run, Block.runFrom, Stmt.exec, State.withValue]
  cases e.eval s.env <;> rfl

/-- When nothing is refused that a program prints, it ends as without a limit. -/
theorem outcome_of_fits (s : Session)
    (fits : s.out.Fits (exec fuel { env := s.env } program).shown) :
    (Block.run fuel program { env := s.env, room := s.out.room }).1 =
      (Block.run fuel program { env := s.env }).1 := by
  unfold exec at fits
  split at fits
  · rename_i e
    rw [run_eval, run_eval]
    dsimp only
    cases e.eval s.env <;> rfl
  · generalize full : Block.run fuel program { env := s.env } = r at fits
    obtain ⟨outcome, t⟩ := r
    obtain ⟨outcome', t', cut, -, same⟩ := run_printed full s.out
    rw [shown_conclude_fresh s.env (Block.run_unlimited full), Sink.fits_append] at fits
    rw [cut]
    exact (same fits.1).1

theorem lineInTime_of_fits (s : Session)
    (fits : s.out.Fits (step fuel { env := s.env } text).shown) :
    LineInTime fuel s text ↔ LineInTime fuel { env := s.env } text := by
  constructor
  all_goals
    intro inTime program parsed
    have ends := inTime program parsed
    rw [step_of_ok parsed] at fits
    have same := outcome_of_fits s fits
  · rwa [same] at ends
  · rwa [same]

/-- When nothing is refused, a session takes the same time as without a limit. -/
theorem inTime_of_fits (s : Session) (inputs : List Input)
    (fits : s.out.Fits (run fuel { env := s.env } inputs).shown) :
    InTime fuel s inputs ↔ InTime fuel { env := s.env } inputs := by
  induction inputs generalizing s with
  | nil => exact Iff.rfl
  | cons input rest ih =>
    cases input with
    | failure message => exact Iff.rfl
    | interrupt => exact ih s fits
    | line text =>
      let u := step fuel { env := s.env } text
      rw [(run_line fuel s.env text rest).1, Sink.fits_append] at fits
      obtain ⟨out, same⟩ := step_row fuel s text
      have later := ih (step fuel s text) (by rw [out, same fits.1]; exact fits.2)
      have full := ih u (Sink.fits_of_unlimited (step_unlimited fuel s.env text) _)
      rw [same fits.1] at later
      rw [InTime, InTime, lineInTime_of_fits s fits.1, later, full]

end Session

/-! ## Sessions and programs -/

/-- Whether it tells that a line failed or returned. -/
def Shown.isStop : Shown → Bool
  | .failed _ | .returned _ => true
  | .printed _ | .echoed _ | .rejected _ => false

/-- Whether it is the value of a bare expression or a report of syntax errors. -/
def Shown.isAside : Shown → Bool
  | .echoed _ | .rejected _ => true
  | .printed _ | .returned _ | .failed _ => false

/-- The statements of a line that parses. -/
def Input.statements : Input → Block
  | .line text => (Session.parse text).toOption.getD []
  | .interrupt | .failure _ => []

namespace Session

variable {fuel : Nat} {env : Env} {p : Block}

/-- The program of all lines that parse, in order. -/
def program (inputs : List Input) : Block := inputs.flatMap Input.statements

/-- The text that is left of an output without the values of bare expressions and the reports of
syntax errors. -/
def plainText (shown : List Shown) : String :=
  String.join ((shown.filter fun x => !x.isAside).map Shown.text)

theorem plainText_append (a b : List Shown) : plainText (a ++ b) = plainText a ++ plainText b := by
  simp [plainText, String.join_append]

theorem plainText_printed (s : State) : plainText (printed s) = s.output := by
  have kept : ((printed s).filter fun x => !x.isAside) = printed s := by
    rw [List.filter_eq_self]
    intro x there
    obtain ⟨event, -, shown⟩ := List.mem_filterMap.1 there
    cases event <;> cases shown
    rfl
  rw [plainText, kept, State.output, State.lines, printed, List.map_filterMap, List.map_filterMap]
  congr 2
  funext event
  cases event <;> rfl

/-- A line leaves the bindings that its program leaves. -/
theorem exec_env (fuel : Nat) (env : Env) (p : Block) :
    (exec fuel { env } p).env = (Block.run fuel p { env }).2.env := by
  unfold exec
  split
  · rename_i e
    rw [run_eval]
    cases e.eval env <;> rfl
  · exact conclude_env _ _

theorem exec_finished {s : State} (h : Block.run fuel p { env } = (.finished, s)) :
    plainText (exec fuel { env } p).shown = s.output := by
  unfold exec
  split
  · rename_i e
    rw [run_eval] at h
    rw [shown_tell_fresh]
    cases value : e.eval env <;> rw [value] at h <;> cases h
    rfl
  · rw [h, shown_conclude_fresh env (Block.run_unlimited h)]
    exact (congrArg plainText (List.append_nil _)).trans (plainText_printed s)

/-- A line that tells of no failure and no return came to its end. -/
theorem finished_of_quiet (running : (Block.run fuel p { env }).1 ≠ .outOfFuel)
    (quiet : ∀ x ∈ (exec fuel { env } p).shown, x.isStop = false) :
    (Block.run fuel p { env }).1 = .finished := by
  unfold exec at quiet
  split at quiet
  · rename_i e
    rw [shown_tell_fresh] at quiet
    rw [run_eval]
    cases value : e.eval env with
    | ok v => rfl
    | error failure =>
      rw [value] at quiet
      cases quiet _ List.mem_cons_self
  · generalize result : Block.run fuel p { env } = r at running quiet
    obtain ⟨outcome, s⟩ := r
    rw [shown_conclude_fresh env (Block.run_unlimited result)] at quiet
    cases outcome with
    | finished => rfl
    | returned v => cases quiet (.returned v) (List.mem_append_right _ List.mem_cons_self)
    | failed k failure => cases quiet (.failed _) (List.mem_append_right _ List.mem_cons_self)
    | outOfFuel => exact absurd rfl running

/-- One program after the other, without a limit to the output. -/
theorem run_append_unlimited {q : Block} {s t : State}
    (first : Block.run fuel p { env } = (.finished, s))
    (second : Block.run fuel q { env := s.env } = (.finished, t)) :
    ∃ t', Block.run fuel (p ++ q) { env } = (.finished, t') ∧ t'.env = t.env ∧
      t'.output = s.output ++ t.output := by
  obtain ⟨outcome, bindings, -, output⟩ := Block.run_append_of_finished first q
  rw [Block.run_unlimited first, second] at outcome bindings output
  exact ⟨(Block.run fuel (p ++ q) { env }).2, Prod.ext outcome rfl, bindings, output⟩

theorem run_program {inputs : List Input} (reads : ∀ message, .failure message ∉ inputs)
    (inTime : InTime fuel { env } inputs)
    (quiet : ∀ x ∈ (run fuel { env } inputs).shown, x.isStop = false) :
    ∃ s, Block.run fuel (program inputs) { env } = (.finished, s) ∧
      s.env = (run fuel { env } inputs).env ∧
      s.output = plainText (run fuel { env } inputs).shown ∧
      (run fuel { env } inputs).error = none := by
  induction inputs generalizing env with
  | nil => exact ⟨{ env }, rfl, rfl, rfl, rfl⟩
  | cons input rest ih =>
    have reads' : ∀ message, .failure message ∉ rest :=
      fun message there => reads message (List.mem_cons_of_mem _ there)
    rw [program, List.flatMap_cons, ← program]
    cases input with
    | failure message => exact absurd List.mem_cons_self (reads message)
    | interrupt => exact ih reads' inTime quiet
    | line text =>
      obtain ⟨ends, later⟩ := inTime
      obtain ⟨shown, bindings⟩ := run_line fuel env text rest
      have unlimited := Sink.fits_of_unlimited (step_unlimited fuel env text)
      have later' := (inTime_of_fits (step fuel { env } text) rest (unlimited _)).1 later
      rw [shown] at quiet ⊢
      rw [bindings]
      obtain ⟨t, second, bindings', output, error⟩ := ih reads' later' fun x there =>
        quiet x (List.mem_append_right _ there)
      have error' : (run fuel { env } (.line text :: rest)).error = none :=
        (run_error fuel _ _ rest).trans error
      rw [plainText_append, Input.statements]
      cases parsed : parse text with
      | error errors =>
        rw [step_of_error parsed] at second bindings' output ⊢
        refine ⟨t, second, bindings', ?_, error'⟩
        rw [output, shown_tell_fresh]
        exact (String.empty_append).symm
      | ok p =>
        rw [step_of_ok parsed] at second bindings' output quiet ⊢
        have finished := finished_of_quiet (ends p parsed) fun x there =>
          quiet x (List.mem_append_left _ there)
        have first : Block.run fuel p { env } = (.finished, (Block.run fuel p { env }).2) :=
          Prod.ext finished rfl
        rw [exec_env] at second
        obtain ⟨t', whole, bindings'', output'⟩ := run_append_unlimited first second
        refine ⟨t', whole, bindings''.trans bindings', ?_, error'⟩
        rw [output', output, exec_finished first]

end Session

end LetWhile
