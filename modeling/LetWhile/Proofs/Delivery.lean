import LetWhile.Linked
import LetWhile.Proofs.Run.Limited
import LetWhile.Proofs.Sink
import Mathlib

/-!
# Delivered output

When a command succeeds although its output refuses a text, part of its output is lost. Whatever a
program prints, its bindings and its code are never lost in this way: a text that is refused there
is an error. But nobody asks whether the line with the returned value was taken, nor whether the
lines of a report were. Main result: `Command.succeeds_undelivered_iff`, which says exactly when
output is lost, and what is missing.

How settings are read, how bindings are encoded and what the text of a module is comes from outside
(`Libraries`). Of these only one thing matters: an encoder writes something (`Encoder.Documented`).
-/

namespace LetWhile

/-! ## Texts in the output of a command -/

theorem Sink.text_after (room : Option Nat) (row : List String) :
    ((Sink.mk room []).after row).text = String.join ((Sink.mk room []).taken row) := by
  rw [text, contents_after]
  rfl

theorem line_ne_empty (text : String) : text ++ "\n" ≠ "" := by
  intro same
  rw [String.append_eq_empty_iff] at same
  exact absurd same.2 (by decide)

namespace Frame

variable {encoder : Encoder}

/-- The texts that show the bindings, each of them one write. -/
def shown (f : Frame) (encoder : Encoder) : BindingsFormat → List String
  | .none => []
  | .text => f.sorted.map fun (name, v) => line name v
  | .yaml => encoder.encode f.entries ++ encoder.close f.entries

/-- The bindings are shown if all these texts are taken, and it is an error if one is not. -/
theorem display_eq (f : Frame) (encoder : Encoder) (format : BindingsFormat) (out : Sink String) :
    ((f.display encoder format out).1.isOk = true ↔ out.Fits (f.shown encoder format)) ∧
      (f.display encoder format out).2 = out.after (f.shown encoder format) := by
  cases format with
  | none => exact ⟨iff_of_true rfl (by simp [shown, Sink.Fits]), (out.after_nil).symm⟩
  | text =>
    rw [shown, display]
    by_cases taken : out.Fits (f.sorted.map fun (name, v) => line name v)
    · rw [Sink.writeAll_of_fits taken]
      exact ⟨iff_of_true rfl taken, rfl⟩
    · rw [Sink.writeAll_of_not_fits taken]
      exact ⟨iff_of_false nofun taken, rfl⟩
  | yaml =>
    rw [shown, Sink.fits_append, Sink.after_append, display]
    by_cases encoded : out.Fits (encoder.encode f.entries)
    · rw [Sink.writeAll_of_fits encoded]
      by_cases closed : (out.after (encoder.encode f.entries)).Fits (encoder.close f.entries)
      · dsimp only
        rw [Sink.writeAll_of_fits closed]
        exact ⟨iff_of_true rfl ⟨encoded, closed⟩, rfl⟩
      · dsimp only
        rw [Sink.writeAll_of_not_fits closed]
        exact ⟨iff_of_false nofun fun taken => closed taken.2, rfl⟩
    · -- Closing would write nothing, since there is no room left.
      rw [Sink.writeAll_of_not_fits encoded, Sink.after_of_not_fits encoded]
      exact ⟨iff_of_false nofun fun taken => encoded taken.1, rfl⟩

/-- Bindings are silent if they are not asked for, or if there are none and each has its own line. -/
theorem shown_eq_nil_iff (documented : encoder.Documented) (f : Frame) (format : BindingsFormat) :
    f.shown encoder format = [] ↔ format = .none ∨ format = .text ∧ f.entries = [] := by
  cases format with
  | none => simp [shown]
  | text => simp [shown, Dict.sorted, ← List.length_eq_zero_iff]
  | yaml =>
    simp only [reduceCtorEq, false_and, or_self, iff_false]
    intro silent
    apply documented.writes f.entries
    rw [shown] at silent
    rw [Encoder.document, silent]
    rfl

end Frame

/-! ## The linked encoder -/

namespace Yaml

/-- Nothing of a text is lost on its way through the buffer. -/
theorem join_piecesFrom (held : List Char) (size : Nat) (text : List Char) :
    String.join (piecesFrom held size text) = String.ofList (held.reverse ++ text) := by
  induction text generalizing held size with
  | nil =>
    cases held with
    | nil => rfl
    | cons c held => simp [piecesFrom, String.join_cons]
  | cons c rest ih =>
    rw [piecesFrom]
    split
    · rw [String.join_cons, ih, ← String.ofList_append]
      rfl
    · rw [ih, List.reverse_cons, List.append_assoc]
      rfl

theorem document_encoder (bindings : List (String × Value)) :
    encoder.document bindings = mapping bindings := by
  rw [Encoder.document]
  change String.join (pieces (mapping bindings) ++ []) = _
  rw [List.append_nil, pieces, join_piecesFrom]
  exact String.ofList_toList

theorem entry_ne_empty (name : String) (v : Value) : entry name v ≠ "" := by
  rw [entry]
  split
  · exact line_ne_empty _
  · exact line_ne_empty _

theorem encoder_documented : encoder.Documented where
  writes bindings := by
    rw [document_encoder, mapping]
    split
    · decide
    · rename_i some
      rw [List.isEmpty_iff, ← List.length_eq_zero_iff] at some
      dsimp only
      obtain ⟨⟨name, v⟩, rest, sorted⟩ := List.exists_cons_of_length_pos
        (l := bindings.mergeSort fun a b => !keyLess [] b.1.toList a.1.toList) (by
          rw [List.length_mergeSort]
          exact Nat.pos_of_ne_zero some)
      rw [sorted, List.map_cons, String.join_cons, ne_eq, String.append_eq_empty_iff]
      exact fun empty => entry_ne_empty name v empty.1

end Yaml

/-! ## Programs -/

/-- The text that tells what a program has returned. -/
def Outcome.told (outcome : Outcome) : List String :=
  (outcome.returned?.map fun v => s!"returned {v.text}\n").toList

def Outcome.Succeeds (outcome : Outcome) : Prop := outcome = .finished ∨ ∃ v, outcome = .returned v

/-- The texts that were printed, each of them one write. -/
def State.texts (s : State) : List String := s.lines.map (· ++ "\n")

theorem State.length_texts (s : State) : s.texts.length = s.lines.length := List.length_map ..

namespace Command

variable {encoder : Encoder} {fuel n : Nat} {files : Files} {file : String}
  {format : BindingsFormat} {program : Block} {outcome : Outcome} {s : State} {out : Sink String}

theorem runFile_stopped (encoder : Encoder) (format : BindingsFormat) (out : Sink String)
    (loads : (load files file).1 = .ok program)
    (result : Block.run fuel program { env := .root, room := out.room } = (outcome, s))
    (stopped : ¬ outcome.Succeeds) : (runFile encoder fuel files file format out).error ≠ none := by
  unfold runFile
  revert loads
  obtain ⟨loaded, records⟩ := load files file
  rintro rfl
  dsimp only
  rw [result]
  cases outcome with
  | finished => exact absurd (.inl rfl) stopped
  | returned v => exact absurd (.inr ⟨v, rfl⟩) stopped
  | failed k failure => simp [Outcome.message?]
  | outOfFuel => simp

/-- Behind the run of a program its value is told and its bindings are shown. -/
theorem runFile_display (encoder : Encoder) (format : BindingsFormat) (out : Sink String)
    (loads : (load files file).1 = .ok program)
    (result : Block.run fuel program { env := .root, room := out.room } = (outcome, s))
    (succeeds : outcome.Succeeds) :
    let told := outcome.told.foldl Sink.offer ⟨s.room, s.texts.reverse ++ out.written⟩
    ((runFile encoder fuel files file format out).error = none ↔
      (s.env.own.display encoder format told).1.isOk = true) ∧
    (runFile encoder fuel files file format out).out = (s.env.own.display encoder format told).2 := by
  intro told
  unfold runFile
  revert loads
  obtain ⟨loaded, records⟩ := load files file
  rintro rfl
  dsimp only
  rw [result]
  rcases succeeds with rfl | ⟨v, rfl⟩
  all_goals
    dsimp only [told, Outcome.told, Outcome.returned?, Option.map, Option.toList, List.foldl,
      State.texts]
    generalize s.env.own.display encoder format _ = display
    obtain ⟨shown, out'⟩ := display
    cases shown <;> simp [Except.isOk, Except.toBool]

/-- When everything that the program prints is taken, the other texts follow in one row. -/
theorem runFile_succeeding (encoder : Encoder) (format : BindingsFormat) (out : Sink String)
    (loads : (load files file).1 = .ok program)
    (result : Block.run fuel program { env := .root } = (outcome, s)) (succeeds : outcome.Succeeds)
    (fits : out.Fits s.texts) :
    ((runFile encoder fuel files file format out).error = none ↔
      (out.after (s.texts ++ outcome.told)).Fits (s.env.own.shown encoder format)) ∧
    (runFile encoder fuel files file format out).out =
      out.after (s.texts ++ outcome.told ++ s.env.own.shown encoder format) := by
  have same := Block.run_fitting out.room result fun k room => by
    rw [← State.length_texts]
    exact fits k room
  have printed : Sink.mk (out.room.map (· - s.lines.length)) (s.texts.reverse ++ out.written) =
      out.after s.texts := by
    rw [Sink.after, Sink.taken_of_fits fits, State.length_texts]
  have report := runFile_display encoder format out loads same succeeds
  obtain ⟨shown, out'⟩ := s.env.own.display_eq encoder format (out.after (s.texts ++ outcome.told))
  rw [Sink.after_append _ (s.texts ++ outcome.told), ← shown, ← out', Sink.after_append,
    ← Sink.offers_eq _ outcome.told, ← printed]
  exact report

/-- A run that succeeds has printed every line that the program prints. -/
theorem runFile_within (loads : (load files file).1 = .ok program)
    (result : Block.run fuel program { env := .root } = (outcome, s))
    (error : (runFile encoder fuel files file format { room := some n }).error = none) :
    outcome.Succeeds ∧ s.lines.length ≤ n := by
  by_cases fits : s.lines.length ≤ n
  · refine ⟨?_, fits⟩
    have same := Block.run_within result fits
    exact Classical.byContradiction fun stopped =>
      runFile_stopped encoder format { room := some n } loads same stopped error
  · have stops := Block.run_beyond result (Nat.lt_of_not_le fits)
    obtain ⟨before, stmt, after, s₁, -, -, -, -, failed⟩ := stops.statement
    refine absurd error
      (runFile_stopped encoder format { room := some n } loads (Prod.ext failed rfl) ?_)
    rintro (finished | ⟨v, returned⟩)
    · cases finished
    · cases returned

theorem runFile_unloaded {message : String} (fails : (load files file).1 = .error message)
    (out : Sink String) : (runFile encoder fuel files file format out).error = some message := by
  unfold runFile
  revert fails
  obtain ⟨loaded, records⟩ := load files file
  rintro rfl
  rfl

theorem append_ne_self {text more : String} (h : more ≠ "") : text ≠ text ++ more := by
  intro same
  have lists := congrArg String.toList same
  rw [String.toList_append, List.self_eq_append_right] at lists
  exact h (String.toList_eq_nil_iff.1 lists)

/-- With the line of the returned value a row has one text more. -/
theorem runFile_missing {v : Value} (loads : (load files file).1 = .ok program)
    (result : Block.run fuel program { env := .root } = (.returned v, s))
    (filled : s.lines.length = n) (silent : s.env.own.shown encoder format = []) :
    (runFile encoder fuel files file format { room := some n }).error = none ∧
    (runFile encoder fuel files file format {}).out.text =
      (runFile encoder fuel files file format { room := some n }).out.text ++
        s!"returned {v.text}\n" := by
  have succeeds : (Outcome.returned v).Succeeds := .inr ⟨v, rfl⟩
  have filled' : s.texts.length = n := s.length_texts.trans filled
  have fits : (Sink.mk (some n) []).Fits s.texts := by
    rintro k ⟨⟩
    exact Nat.le_of_eq filled'
  obtain ⟨error, cut⟩ :=
    runFile_succeeding encoder format { room := some n } loads result succeeds fits
  obtain ⟨-, full⟩ := runFile_succeeding encoder format {} loads result succeeds nofun
  rw [silent] at error cut full
  have line : (Outcome.returned v).told = [s!"returned {v.text}\n"] := rfl
  rw [line, List.append_nil] at cut full
  constructor
  · rw [error]
    simp [Sink.Fits]
  · rw [cut, full, Sink.text_after, Sink.text_after]
    simp [Sink.taken, ← filled', String.join_append]

/-- When the output of a program is not delivered, it has returned after `n` lines, and shows no
bindings. -/
theorem runFile_loses (loads : (load files file).1 = .ok program)
    (result : Block.run fuel program { env := .root } = (outcome, s))
    (error : (runFile encoder fuel files file format { room := some n }).error = none)
    (differs : (runFile encoder fuel files file format { room := some n }).out.text ≠
      (runFile encoder fuel files file format {}).out.text) :
    ∃ v, outcome = .returned v ∧ s.lines.length = n ∧ s.env.own.shown encoder format = [] := by
  obtain ⟨succeeds, printed⟩ := runFile_within loads result error
  rw [← State.length_texts] at printed ⊢
  have fits : (Sink.mk (some n) []).Fits s.texts := by
    rintro k ⟨⟩
    exact printed
  obtain ⟨taken, cut⟩ :=
    runFile_succeeding encoder format { room := some n } loads result succeeds fits
  obtain ⟨-, full⟩ := runFile_succeeding encoder format {} loads result succeeds nofun
  have bindings := taken.1 error
  -- Were the whole row taken, the outputs would be the same.
  have refused : ¬ (Sink.mk (some n) []).Fits (s.texts ++ outcome.told) := by
    intro whole
    have all := Sink.taken_of_fits (Sink.fits_append.2 ⟨whole, bindings⟩)
    apply differs
    rw [cut, full, Sink.text_after, Sink.text_after, all]
    rfl
  have silent : s.env.own.shown encoder format = [] := by
    have none := bindings 0 (by
      simp only [Sink.Fits, Option.some.injEq, forall_eq', Nat.not_le] at refused
      simp only [Sink.after, Option.map_some, Option.some.injEq]
      omega)
    exact List.eq_nil_of_length_eq_zero (Nat.le_zero.1 none)
  rcases succeeds with rfl | ⟨v, rfl⟩
  · rw [show Outcome.finished.told = [] from rfl, List.append_nil] at refused
    exact absurd fits refused
  · refine ⟨v, rfl, ?_, silent⟩
    have one : (Outcome.returned v).told.length = 1 := rfl
    simp only [Sink.Fits, Option.some.injEq, forall_eq', List.length_append, one] at refused
    omega

/-- A run loses the line with the returned value if this is the first text that is refused and no
text is written behind it. -/
theorem runFile_loses_iff (documented : encoder.Documented) (fuel : Nat) (files : Files)
    (file : String) (format : BindingsFormat) (n : Nat) :
    ((runFile encoder fuel files file format { room := some n }).error = none ∧
      (runFile encoder fuel files file format { room := some n }).out.text ≠
        (runFile encoder fuel files file format {}).out.text) ↔
    ∃ program v s, (load files file).1 = .ok program ∧
      Block.run fuel program { env := .root } = (.returned v, s) ∧ s.lines.length = n ∧
      (format = .none ∨ format = .text ∧ s.env.own.entries = []) ∧
      (runFile encoder fuel files file format {}).out.text =
        (runFile encoder fuel files file format { room := some n }).out.text ++
          s!"returned {v.text}\n" := by
  constructor
  · rintro ⟨error, differs⟩
    cases loads : (load files file).1 with
    | error message =>
      rw [runFile_unloaded loads] at error
      cases error
    | ok program =>
      cases result : Block.run fuel program { env := .root } with
      | mk outcome s =>
        obtain ⟨v, rfl, filled, silent⟩ := runFile_loses loads result error differs
        obtain ⟨-, missing⟩ := runFile_missing loads result filled silent
        exact ⟨program, v, s, rfl, result, filled,
          (s.env.own.shown_eq_nil_iff documented format).1 silent, missing⟩
  · rintro ⟨program, v, s, loads, result, filled, none, missing⟩
    have silent := (s.env.own.shown_eq_nil_iff documented format).2 none
    obtain ⟨error, -⟩ := runFile_missing loads result filled silent
    refine ⟨error, ?_⟩
    rw [missing]
    exact append_ne_self (line_ne_empty _)

/-! ## Code and reports -/

/-- Code is delivered, or it is an error. -/
theorem codeFile_delivers (listing : Code.Function → String) (files : Files) (file : String) (n : Nat)
    (error : (codeFile listing files file { room := some n }).error = none) :
    (codeFile listing files file { room := some n }).out.text =
      (codeFile listing files file {}).out.text := by
  revert error
  unfold codeFile
  obtain ⟨loaded, records⟩ := load files file
  cases loaded with
  | error message => exact fun _ => rfl
  | ok program =>
    dsimp only
    cases Code.lower program with
    | error e => exact fun _ => rfl
    | ok code =>
      cases n with
      | zero => nofun
      | succ n => exact fun _ => rfl

/-- Every file has its line, whether or not it is taken. -/
theorem checkEach_eq (files : Files) (names : List String) (out : Sink String) :
    (checkEach files names out).1 = names.countP (fun name => !(load files name).1.isOk) ∧
    (checkEach files names out).2.1 =
      out.after (names.map fun name => checkLine name (load files name).1) := by
  rw [← Sink.offers_eq]
  induction names generalizing out with
  | nil => exact ⟨rfl, rfl⟩
  | cons name rest ih =>
    rw [checkEach, List.countP_cons, List.map_cons, List.foldl_cons]
    obtain ⟨loaded, records⟩ := load files name
    dsimp only
    obtain ⟨count, written⟩ := ih (out.offer (checkLine name loaded))
    rw [count, written]
    refine ⟨?_, rfl⟩
    cases loaded <;> rfl

theorem checkFiles_error_iff (files : Files) (names : List String) (out : Sink String) :
    (checkFiles files names out).error = none ↔ ∀ name ∈ names, (load files name).1.isOk := by
  have count := (checkEach_eq files names out).1
  unfold checkFiles
  revert count
  obtain ⟨failed, out', records⟩ := checkEach files names out
  rintro rfl
  simp

theorem checkFiles_text (files : Files) (names : List String) (room : Option Nat) :
    (checkFiles files names { room }).out.text = String.join
      ((Sink.mk room []).taken (names.map fun name => checkLine name (load files name).1)) := by
  rw [← Sink.text_after, ← (checkEach_eq files names { room }).2]
  rfl

theorem checkLine_of_isOk {loaded : Except String Block} (fine : loaded.isOk) (name : String) :
    checkLine name loaded = s!"{name}: ok\n" := by
  cases loaded with
  | ok program => rfl
  | error message => cases fine

theorem checkFiles_missing {names : List String} (fine : ∀ name ∈ names, (load files name).1.isOk)
    (n : Nat) : (checkFiles files names {}).out.text =
      (checkFiles files names { room := some n }).out.text ++
        String.join ((names.drop n).map fun name => s!"{name}: ok\n") := by
  have behind : ((names.drop n).map fun name => checkLine name (load files name).1) =
      (names.drop n).map fun name => s!"{name}: ok\n" :=
    List.map_congr_left fun name mem => checkLine_of_isOk (fine name (List.mem_of_mem_drop mem)) name
  rw [checkFiles_text, checkFiles_text, ← behind, ← String.join_append]
  simp only [Sink.taken, Option.elim, ← List.map_take, ← List.map_append, List.take_append_drop]

theorem report_ne_empty {names : List String} (some : names ≠ []) :
    String.join (names.map fun name => s!"{name}: ok\n") ≠ "" := by
  obtain ⟨name, rest, rfl⟩ := List.exists_cons_of_ne_nil some
  rw [List.map_cons, String.join_cons]
  intro same
  rw [String.append_eq_empty_iff, String.append_eq_empty_iff] at same
  exact absurd same.1.2 (by decide)

/-- A report that succeeds loses its last lines if its output takes fewer. -/
theorem checkFiles_loses_iff (files : Files) (names : List String) (n : Nat) :
    ((checkFiles files names { room := some n }).error = none ∧
      (checkFiles files names { room := some n }).out.text ≠ (checkFiles files names {}).out.text) ↔
    n < names.length ∧ (∀ name ∈ names, (load files name).1.isOk) ∧
      (checkFiles files names {}).out.text = (checkFiles files names { room := some n }).out.text ++
        String.join ((names.drop n).map fun name => s!"{name}: ok\n") := by
  rw [checkFiles_error_iff]
  constructor
  · rintro ⟨fine, differs⟩
    have missing := checkFiles_missing fine n
    refine ⟨?_, fine, missing⟩
    apply Nat.lt_of_not_le
    intro enough
    rw [missing, List.drop_of_length_le enough] at differs
    exact differs (by simp)
  · rintro ⟨short, fine, missing⟩
    refine ⟨fine, ?_⟩
    rw [missing]
    exact append_ne_self (report_ne_empty (by simpa using short))

/-! ## Commands -/

/-- What is missing in the output of a command that succeeds while its output takes only `n` texts:
the line with the returned value if it is the first to be refused and no text is written behind it,
or the last lines of a report. -/
inductive Loss (fuel : Nat) (files : Files) (n : Nat) (setup : Setup) : String → Prop where
  | returned {file : String} {program : Block} {v : Value} {s : State}
      (asked : setup.action = .run file) (loads : (load files file).1 = .ok program)
      (returns : Block.run fuel program { env := .root } = (.returned v, s))
      (filled : s.lines.length = n)
      (silent : setup.format = .none ∨ setup.format = .text ∧ s.env.own.entries = []) :
      Loss fuel files n setup s!"returned {v.text}\n"
  | checked {names : List String} (asked : setup.action = .check names) (short : n < names.length)
      (fine : ∀ name ∈ names, (load files name).1.isOk) :
      Loss fuel files n setup (String.join ((names.drop n).map fun name => s!"{name}: ok\n"))

variable {lib : Libraries}

theorem perform_loses_iff (documented : lib.encoder.Documented) (fuel : Nat) (files : Files) (n : Nat)
    (setup : Setup) :
    ((setup.perform lib fuel files { room := some n }).error = none ∧
      (setup.perform lib fuel files { room := some n }).out.text ≠
        (setup.perform lib fuel files {}).out.text) ↔
    ∃ missing, Loss fuel files n setup missing ∧
      (setup.perform lib fuel files {}).out.text =
        (setup.perform lib fuel files { room := some n }).out.text ++ missing := by
  unfold Setup.perform
  constructor
  · rintro ⟨error, differs⟩
    cases asked : setup.action with
    | run file =>
      rw [asked] at error differs
      obtain ⟨program, v, s, loads, returns, filled, silent, missing⟩ :=
        (runFile_loses_iff documented fuel files file setup.format n).1 ⟨error, differs⟩
      exact ⟨_, .returned asked loads returns filled silent, missing⟩
    | code file =>
      rw [asked] at error differs
      exact absurd (codeFile_delivers lib.listing files file n error) differs
    | check names =>
      rw [asked] at error differs
      obtain ⟨short, fine, missing⟩ := (checkFiles_loses_iff files names n).1 ⟨error, differs⟩
      exact ⟨_, .checked asked short fine, missing⟩
    | session =>
      rw [asked] at differs
      exact absurd rfl differs
  · rintro ⟨missing, loss, same⟩
    cases loss with
    | @returned file program v s asked loads returns filled silent =>
      rw [asked] at same ⊢
      exact (runFile_loses_iff documented fuel files file setup.format n).2
        ⟨program, v, s, loads, returns, filled, silent, same⟩
    | @checked names asked short fine =>
      rw [asked] at same ⊢
      exact (checkFiles_loses_iff files names n).2 ⟨short, fine, same⟩

/-- **When output is lost.** A command that succeeds has written all that it writes to an output
that takes everything, except in two cases. A program returns, the line that tells its value is the
first text that is refused, and no text for its bindings is written behind it, since they are not
asked for or there are none: then this line is missing. Or all files of a report are without errors,
and there are more of them than lines are taken: then the other lines are missing. -/
theorem succeeds_undelivered_iff (lib : Libraries) (documented : lib.encoder.Documented) (fuel : Nat)
    (files : Files) (args : List String) (n : Nat) :
    ((run lib fuel files args { room := some n }).error = none ∧
      (run lib fuel files args { room := some n }).stdout ≠ (run lib fuel files args {}).stdout) ↔
    ∃ setup missing, Setup.ofArgs lib.reader files args = .ok setup ∧
      Loss fuel files n setup missing ∧
      (run lib fuel files args {}).stdout =
        (run lib fuel files args { room := some n }).stdout ++ missing := by
  unfold run
  cases Setup.ofArgs lib.reader files args with
  | error refusal => simp
  | ok setup => simpa using perform_loses_iff documented fuel files n setup

/-- One program, which returns, and nothing else. -/
def returningFile : Files := fun path =>
  if path = "a.st" then .ok (.content "return true;".toUTF8.data.toList) else .error .missing

set_option maxRecDepth 2000 in
theorem succeeds_undelivered_iff_returning : Libraries.linked.encoder.Documented ∧
    (run .linked 0 returningFile ["run", "a.st"] { room := some 0 }).error = none ∧
    (run .linked 0 returningFile ["run", "a.st"] { room := some 0 }).stdout ≠
      (run .linked 0 returningFile ["run", "a.st"] {}).stdout := by
  have full : (run .linked 0 returningFile ["run", "a.st"] {}).stdout = "returned true\n" := by cbv
  have cut : (run .linked 0 returningFile ["run", "a.st"] { room := some 0 }).stdout = "" := by cbv
  let setup : Setup := ⟨.warn, .text, "", .run "a.st"⟩
  let s : State := ⟨.root, none, [.returned 1 (.bool true)]⟩
  have loads : (load returningFile "a.st").1 = .ok [.result (.bool true)] := by cbv
  have loss : Loss 0 returningFile 0 setup "returned true\n" :=
    .returned (s := s) rfl loads rfl rfl (.inr ⟨rfl, rfl⟩)
  have missing : (run .linked 0 returningFile ["run", "a.st"] {}).stdout =
      (run .linked 0 returningFile ["run", "a.st"] { room := some 0 }).stdout ++
        "returned true\n" := by
    rw [full, cut, String.empty_append]
  exact ⟨Yaml.encoder_documented,
    (succeeds_undelivered_iff .linked Yaml.encoder_documented 0 returningFile ["run", "a.st"] 0).2
      ⟨setup, _, rfl, loss, missing⟩⟩

/-- The program succeeds with an output that takes nothing, and so does a report on it. -/
theorem succeeds_without_output :
    ((run .linked 0 returningFile ["run", "a.st"] { room := some 0 }).error = none ∧
      (run .linked 0 returningFile ["run", "a.st"] { room := some 0 }).stdout = "" ∧
      (run .linked 0 returningFile ["run", "a.st"] {}).stdout = "returned true\n") ∧
    (run .linked 0 returningFile ["check", "a.st"] { room := some 0 }).error = none ∧
    (run .linked 0 returningFile ["check", "a.st"] { room := some 0 }).stdout = "" ∧
    (run .linked 0 returningFile ["check", "a.st"] {}).stdout = "a.st: ok\n" := by
  refine ⟨⟨?_, ?_, ?_⟩, ?_, ?_, ?_⟩ <;> cbv

end Command

end LetWhile
