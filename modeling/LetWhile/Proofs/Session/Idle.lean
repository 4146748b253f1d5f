import LetWhile.Proofs.Session

/-!
# Inputs that can be left out

Some inputs do nothing to the bindings of a session; at most they show something. Without a limit to
the output such an input can be left out of any session. With a limit what it shows may take the
place of something that is shown later: a program that is then refused a print stops, and leaves
other bindings. So it can be left out exactly if it shows nothing, or if nothing is refused behind
it. Main result: `Session.agrees_with_program`.
-/

namespace LetWhile

/-- An interrupt or a blank line. -/
def Input.IsQuiet : Input → Prop
  | .interrupt => True
  | .line text => Text.isBlank text
  | .failure _ => False

/-- An interrupt, a blank line, a line with syntax errors or one bare expression. -/
def Input.IsIdle : Input → Prop
  | .interrupt => True
  | .line text => Text.isBlank text ∨ (∃ errors, Session.parse text = .error errors) ∨
      ∃ e, Session.parse text = .ok [.eval e]
  | .failure _ => False

theorem Input.IsQuiet.isIdle {i : Input} (quiet : i.IsQuiet) : i.IsIdle := by
  cases i with
  | interrupt => trivial
  | line text => exact .inl quiet
  | failure message => exact quiet

namespace Session

variable {fuel : Nat} {s : Session} {i : Input} {before after : List Input}

/-! ## One session behind another -/

theorem run_append (fuel : Nat) (s : Session) (before after : List Input) :
    run fuel s (before ++ after) =
      if (run fuel s before).error = none then run fuel (run fuel s before).toSession after
      else run fuel s before := by
  induction before generalizing s with
  | nil => rfl
  | cons input rest ih =>
    cases input with
    | failure message => rfl
    | interrupt => exact ih s
    | line text => exact ih (step fuel s text)

theorem inTime_append (fuel : Nat) (s : Session) (before after : List Input) :
    InTime fuel s (before ++ after) ↔ InTime fuel s before ∧
      ((run fuel s before).error = none → InTime fuel (run fuel s before).toSession after) := by
  induction before generalizing s with
  | nil => simp [InTime, run]
  | cons input rest ih =>
    cases input with
    | failure message => simp [InTime, run]
    | interrupt => exact ih s
    | line text => rw [List.cons_append, InTime, InTime, ih, and_assoc, run]

/-! ## Idle inputs -/

theorem step_idle {text : String} (idle : (Input.line text).IsIdle) (fuel : Nat) (s : Session) :
    (step fuel s text).env = s.env ∧ LineInTime fuel s text := by
  rcases idle with blank | ⟨errors, parsed⟩ | ⟨e, parsed⟩
  · rw [step_of_ok (parse_blank blank)]
    exact ⟨rfl, .of_ok (parse_blank blank) nofun⟩
  · rw [step_of_error parsed]
    exact ⟨rfl, .of_error parsed⟩
  · rw [step_of_ok parsed]
    refine ⟨rfl, .of_ok parsed ?_⟩
    rw [run_eval]
    dsimp only
    cases e.eval s.env <;> nofun

theorem run_idle (idle : i.IsIdle) (fuel : Nat) (s : Session) :
    (run fuel s [i]).env = s.env ∧ (run fuel s [i]).error = none ∧ InTime fuel s [i] := by
  cases i with
  | interrupt => exact ⟨rfl, rfl, trivial⟩
  | failure message => cases idle
  | line text =>
    obtain ⟨same, inTime⟩ := step_idle idle fuel s
    exact ⟨same, rfl, inTime, trivial⟩

theorem run_quiet (quiet : i.IsQuiet) (fuel : Nat) (s : Session) : run fuel s [i] = ⟨s, none⟩ := by
  cases i with
  | interrupt => rfl
  | failure message => cases quiet
  | line text =>
    have blank : Text.isBlank text := quiet
    rw [run, step, if_pos blank, run]

/-! ## What comes behind -/

/-- The session, with an output that takes everything. -/
def unlimited (s : Session) : Session := { s with out := { s.out with room := none } }

/-- Nothing is refused of what the session shows from here on. -/
def ShowsAll (fuel : Nat) (s : Session) (inputs : List Input) : Prop :=
  (run fuel s inputs).shown = (run fuel s.unlimited inputs).shown

theorem shown_run (fuel : Nat) (s : Session) (inputs : List Input) :
    (run fuel s inputs).shown =
      s.shown ++ s.out.taken (run fuel { env := s.env } inputs).shown :=
  shown_after (run_row fuel s inputs).1

theorem showsAll_iff (fuel : Nat) (s : Session) (inputs : List Input) :
    ShowsAll fuel s inputs ↔ s.out.Fits (run fuel { env := s.env } inputs).shown := by
  have all : (run fuel s.unlimited inputs).shown =
      s.shown ++ (run fuel { env := s.env } inputs).shown := shown_run fuel s.unlimited inputs
  rw [ShowsAll, all, shown_run fuel s, List.append_right_inj]
  exact Sink.taken_eq_self_iff

section

variable {t : Session} {own : List Shown} {inputs : List Input}

/-- What was shown stays. -/
theorem exists_shown_append (fuel : Nat) (s : Session) (before after : List Input) :
    ∃ more, (run fuel s (before ++ after)).shown = (run fuel s before).shown ++ more := by
  rw [run_append]
  split
  · exact ⟨_, shown_run fuel (run fuel s before).toSession after⟩
  · exact ⟨[], (List.append_nil _).symm⟩

theorem ShowsAll.of_prefix {later : List Input} (h : ShowsAll fuel s inputs)
    (first : later <+: inputs) : ShowsAll fuel s later := by
  obtain ⟨rest, rfl⟩ := first
  obtain ⟨more, shown⟩ := exists_shown_append fuel { env := s.env } later rest
  rw [showsAll_iff, shown, Sink.fits_append] at h
  rw [showsAll_iff]
  exact h.1

/-- Two sessions with the same bindings, of which the second has shown one row more, go on alike if
nothing of this row was taken, or all that follows is. -/
theorem go_on_alike (bindings : t.env = s.env) (out : t.out = s.out.after own)
    (h : t.shown = s.shown ∨ ShowsAll fuel t inputs) :
    (InTime fuel t inputs ↔ InTime fuel s inputs) ∧
      (run fuel s inputs).env = (run fuel t inputs).env ∧
      ∃ b, (run fuel t inputs).shown = t.shown ++ b ∧ (run fuel s inputs).shown = s.shown ++ b := by
  rcases h with none | fits
  · have same : t = s := by
      obtain ⟨env, tout⟩ := t
      obtain rfl : env = s.env := bindings
      obtain rfl : tout = s.out.after own := out
      rw [Sink.after_eq_self none]
    subst same
    exact ⟨Iff.rfl, rfl, _, shown_run fuel t inputs, shown_run fuel t inputs⟩
  · rw [showsAll_iff] at fits
    have fits' : s.out.Fits (run fuel { env := s.env } inputs).shown := by
      rw [out, bindings] at fits
      exact Sink.fits_of_fits_after fits
    refine ⟨?_, ?_, (run fuel { env := s.env } inputs).shown, ?_, ?_⟩
    · rw [inTime_of_fits t inputs fits, inTime_of_fits s inputs fits', bindings]
    · rw [(run_row fuel s inputs).2 fits', (run_row fuel t inputs).2 fits, bindings]
    · rw [shown_run, Sink.taken_of_fits fits, bindings]
    · rw [shown_run, Sink.taken_of_fits fits']

/-- They show the same only then. -/
theorem shows_all_of_alike (bindings : t.env = s.env) (out : t.out = s.out.after own)
    {b : List Shown} (full : (run fuel t inputs).shown = t.shown ++ b)
    (less : (run fuel s inputs).shown = s.shown ++ b) :
    t.shown = s.shown ∨ ShowsAll fuel t inputs := by
  rw [shown_run, List.append_cancel_left_eq, bindings, out] at full
  rw [shown_run, List.append_cancel_left_eq] at less
  by_cases taken : s.out.taken own = []
  · left
    rw [shown_after out, taken, List.append_nil]
  · right
    rw [showsAll_iff, bindings, out]
    exact Sink.fits_of_taken_eq taken (full.trans less.symm)

end

/-! ## Leaving out an input -/

/-- In front of these inputs another one makes no difference but that it shows what it shows: without
it the lines behind it end as they do, each of them with the same bindings, and the output lacks
just that. -/
def Unnoticed (fuel : Nat) (s : Session) (before : List Input) (i : Input) (after : List Input) :
    Prop :=
  ∀ later, later <+: after →
    let full := run fuel s (before ++ i :: later)
    let less := run fuel s (before ++ later)
    (InTime fuel s (before ++ i :: later) ↔ InTime fuel s (before ++ later)) ∧
      less.env = full.env ∧ less.error = full.error ∧
      ∃ a own b, (run fuel s before).shown = a ∧ (run fuel s (before ++ [i])).shown = a ++ own ∧
        full.shown = a ++ own ++ b ∧ less.shown = a ++ b

theorem unnoticed_iff (idle : i.IsIdle) (fuel : Nat) (s : Session) (before after : List Input) :
    Unnoticed fuel s before i after ↔
      (run fuel s (before ++ [i])).shown = (run fuel s before).shown ∨
        ShowsAll fuel (run fuel s (before ++ [i])).toSession after := by
  generalize reached : run fuel s before = here
  by_cases error : here.error = none
  · obtain ⟨bindings, reads, inTime⟩ := run_idle idle fuel here.toSession
    have out := (run_row fuel here.toSession [i]).1
    have past : run fuel s (before ++ [i]) = run fuel here.toSession [i] := by
      rw [run_append, reached, if_pos error]
    have full (later : List Input) : run fuel s (before ++ i :: later) =
        run fuel (run fuel here.toSession [i]).toSession later := by
      rw [List.append_cons, run_append, past, if_pos reads]
    have less (later : List Input) :
        run fuel s (before ++ later) = run fuel here.toSession later := by
      rw [run_append, reached, if_pos error]
    have time (later : List Input) : InTime fuel s (before ++ i :: later) ↔ InTime fuel s before ∧
        InTime fuel (run fuel here.toSession [i]).toSession later := by
      rw [List.append_cons, inTime_append, inTime_append, past, reached]
      simp [error, reads, inTime]
    have lessTime (later : List Input) : InTime fuel s (before ++ later) ↔ InTime fuel s before ∧
        InTime fuel here.toSession later := by
      rw [inTime_append, reached]
      simp [error]
    rw [past]
    constructor
    · intro unnoticed
      obtain ⟨-, -, -, a, own, b, start, told, all, some⟩ := unnoticed after (List.prefix_refl _)
      rw [full, ← told, past] at all
      rw [less, ← start, reached] at some
      exact shows_all_of_alike bindings out all some
    · intro h later first
      obtain ⟨sameTime, same, b, all, some⟩ :=
        go_on_alike bindings out (h.imp_right fun every => every.of_prefix first)
      have told := shown_after out
      rw [full, less, time, lessTime, sameTime, past, reached]
      refine ⟨Iff.rfl, same, run_error fuel _ _ later, _, _, b, rfl, told, ?_, some⟩
      rw [all, told]
  · -- The reader has failed before.
    have stopped (later : List Input) : run fuel s (before ++ later) = here := by
      rw [run_append, reached, if_neg error]
    have time (later : List Input) : InTime fuel s (before ++ later) ↔ InTime fuel s before := by
      rw [inTime_append, reached]
      simp [error]
    rw [stopped]
    refine iff_of_true (fun later first => ?_) (.inl rfl)
    rw [stopped, stopped, stopped, time, time, reached]
    exact ⟨Iff.rfl, rfl, rfl, _, [], [], rfl, by simp⟩

/-! ## Sessions and programs -/

/-- **A session agrees with a program.** If its inputs are lines and interrupts, its output takes
everything, and it ends without telling of a failure or a return, then the program of all the lines
that parse comes to its end; it leaves the bindings that the session leaves, and prints what is left
of the session's output without the values of bare expressions and the reports of syntax errors.

In any session, with any output and any fuel, an interrupt and a blank line can be left out:
whatever comes behind it, the lines end as they did, with the same bindings, and the output lacks
just what was shown for that input. A line with syntax errors and a line with one bare expression
can be left out if the output takes everything; with any output, they can be left out exactly if
what they show is refused, or nothing is refused behind them. -/
theorem agrees_with_program :
    (∀ inputs r, (∀ message, .failure message ∉ inputs) → Ends {} inputs r →
      (∀ x ∈ r.shown, x.isStop = false) →
      ∃ s, Block.Ends (program inputs) { env := .root } .finished s ∧ r.error = none ∧
        s.env = r.env ∧
        s.output = String.join ((r.shown.filter fun x => !x.isAside).map Shown.text)) ∧
    (∀ fuel s before i after, i.IsQuiet → Unnoticed fuel s before i after) ∧
    (∀ fuel s before i after, i.IsIdle →
      (s.out.room = none → Unnoticed fuel s before i after) ∧
      (Unnoticed fuel s before i after ↔
        (run fuel s (before ++ [i])).shown = (run fuel s before).shown ∨
          ShowsAll fuel (run fuel s (before ++ [i])).toSession after)) := by
  refine ⟨?_, ?_, ?_⟩
  · rintro inputs r reads ⟨fuel, inTime, rfl⟩ quiet
    obtain ⟨s, result, bindings, output, error⟩ := run_program reads inTime quiet
    exact ⟨s, ⟨nofun, fuel, result⟩, error, bindings, output⟩
  · intro fuel s before i after quiet
    rw [unnoticed_iff quiet.isIdle, run_append]
    left
    split
    · rw [run_quiet quiet]
    · rfl
  · intro fuel s before i after idle
    refine ⟨fun unlimited => ?_, unnoticed_iff idle fuel s before after⟩
    rw [unnoticed_iff idle, showsAll_iff]
    right
    apply Sink.fits_of_unlimited
    rw [(run_row fuel s _).1, Sink.after, unlimited]
    rfl

/-- A declaration, an interrupt, a bare expression, a line that does not parse, and an output. -/
def conversation : List Input :=
  [.line "let x = true;", .interrupt, .line "x;", .line "let = x;", .line "print(x);"]

set_option maxRecDepth 2000 in
theorem agrees_with_program_conversation :
    ∃ r s, Ends {} conversation r ∧
      Block.Ends (program conversation) { env := .root } .finished s ∧ s.env = r.env ∧
      r.output = "true\n<repl>:1:5: expected variable name, found '='\ntrue\n" ∧
      s.output = "true\n" ∧
      (run 0 {} [.line "let x = true;", .interrupt, .line "let = x;", .line "print(x);"]).env =
        r.env := by
  let bound : Env := ⟨Dict.empty.insert "x" (.bool true), []⟩
  let misplaced : SyntaxError := ⟨some ⟨sourceName, 1, 5⟩,
    .expected .name ⟨.assign, "=", some ⟨sourceName, 1, 5⟩⟩⟩
  let s₂ : Session := ⟨bound, { written := [.echoed (.bool true)] }⟩
  let s₃ : Session := ⟨bound, { written := [.rejected [misplaced], .echoed (.bool true)] }⟩
  let s₄ : Session :=
    ⟨bound, { written := [.printed (.bool true), .rejected [misplaced], .echoed (.bool true)] }⟩
  have declared : parse "let x = true;" = .ok [.declare "x" (.bool true)] := by cbv
  have bare : parse "x;" = .ok [.eval (.variable "x")] := by cbv
  have broken : parse "let = x;" = .error [misplaced] := by cbv
  have output : parse "print(x);" = .ok [.print (.variable "x")] := by cbv
  have first : step 0 {} "let x = true;" = ⟨bound, {}⟩ := step_of_ok declared 0 {}
  have second : step 0 ⟨bound, {}⟩ "x;" = s₂ := step_of_ok bare 0 ⟨bound, {}⟩
  have third : step 0 s₂ "let = x;" = s₃ := step_of_error broken 0 s₂
  have fourth : step 0 s₃ "print(x);" = s₄ := step_of_ok output 0 s₃
  have inTime : InTime 0 {} conversation := by
    simp only [conversation, InTime, first, second, third]
    exact ⟨.of_ok declared (by decide), .of_ok bare (by decide), .of_error broken,
      .of_ok output (by decide), trivial⟩
  have result : run 0 {} conversation = ⟨s₄, none⟩ := by
    simp only [conversation, run, first, second, third, fourth]
  obtain ⟨agrees, -, without⟩ := agrees_with_program
  obtain ⟨s, ends, -, bindings, text⟩ := agrees conversation ⟨s₄, none⟩ (by simp [conversation])
    ⟨0, inTime, result⟩ (by simp [shown, Sink.contents, s₄, Shown.isStop])
  obtain ⟨-, same, -⟩ := (without 0 {} [.line "let x = true;", .interrupt] (.line "x;")
    [.line "let = x;", .line "print(x);"] (.inr (.inr ⟨_, bare⟩))).1 rfl _ (List.prefix_refl _)
  refine ⟨⟨s₄, none⟩, s, ⟨0, inTime, result⟩, ends, bindings, by decide, text.trans (by decide), ?_⟩
  exact same.trans (congrArg (fun r => r.env) result)

set_option maxRecDepth 2000 in
/-- The value of a bare expression takes the only write, and the print behind it stops its line. -/
theorem notices_refused_print :
    let s : Session := { out := { room := some 1 } }
    let behind : Input := .line "print(true); let x = true;"
    (Input.line "true;").IsIdle ∧
    (run 0 s [.line "true;", behind]).env = .root ∧
    (run 0 s [.line "true;", behind]).output = "true\n" ∧
    (run 0 s [behind]).env = ⟨Dict.empty.insert "x" (.bool true), []⟩ ∧
    (run 0 s [behind]).output = "true\n" ∧
    ¬ Unnoticed 0 s [] (.line "true;") [behind] := by
  intro s behind
  have bare : parse "true;" = .ok [.eval (.bool true)] := by cbv
  have two : parse "print(true); let x = true;" =
      .ok [.print (.bool true), .declare "x" (.bool true)] := by cbv
  have first : step 0 s "true;" = ⟨.root, ⟨some 0, [.echoed (.bool true)]⟩⟩ := step_of_ok bare 0 s
  have full : run 0 s [.line "true;", behind] =
      ⟨⟨.root, ⟨some 0, [.echoed (.bool true)]⟩⟩, none⟩ := by
    simp only [behind, run, first, step_of_ok two]
    rfl
  have less : run 0 s [behind] =
      ⟨⟨⟨Dict.empty.insert "x" (.bool true), []⟩, ⟨some 0, [.printed (.bool true)]⟩⟩, none⟩ := by
    simp only [behind, run, step_of_ok two]
    rfl
  rw [full, less]
  refine ⟨.inr (.inr ⟨_, bare⟩), rfl, by decide, rfl, by decide, ?_⟩
  intro unnoticed
  obtain ⟨-, same, -⟩ := unnoticed [behind] (List.prefix_refl _)
  rw [List.nil_append, List.nil_append, full, less] at same
  exact absurd (congrArg (fun env => env.own.entries.length) same) (by decide)

end Session

end LetWhile
