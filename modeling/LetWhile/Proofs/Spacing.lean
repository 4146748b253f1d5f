import LetWhile.Proofs.Layout
import LetWhile.Proofs.Utf8

/-!
# Tokens spaced out

Any tokens, comments included, can be written one behind the other with blanks after each, a new
line behind a comment: scanning the text gives them back (`Source.scan_undoes_spacing`). The blanks may be
left out between two words if the second does not go on with the first
(`Spaced.written_of_apart`).
-/

namespace LetWhile

open Token Token.Word

namespace Token.Word

/-- The text is one that a token of the kind can have. -/
inductive Lexical : Word → Prop where
  | whole {ds : List Char} (nonempty : ds ≠ []) (digits : ∀ d ∈ ds, Text.isAsciiDigit d = true) :
      Lexical ⟨.number, String.ofList ds⟩
  | decimal {ds ps : List Char} (nonempty : ds ≠ [])
      (digits : ∀ d ∈ ds, Text.isAsciiDigit d = true) (places : ps ≠ [])
      (decimals : ∀ d ∈ ps, Text.isAsciiDigit d = true) :
      Lexical ⟨.number, String.ofList (ds ++ '.' :: ps)⟩
  | identifier {c : Char} {cs : List Char} (first : Lexeme.startsWord c = true)
      (others : ∀ x ∈ cs, Lexeme.inWord x = true) (free : c :: cs ∉ Lexeme.keywords.map Prod.fst) :
      Lexical ⟨.identifier, String.ofList (c :: cs)⟩
  | keyword {kind : Kind} {w : List Char} (entry : (w, kind) ∈ Lexeme.keywords) :
      Lexical ⟨kind, String.ofList w⟩
  | operator {kind : Kind} {w : List Char} (entry : (w, kind) ∈ Lexeme.operators)
      (proper : kind ≠ .lineComment) : Lexical ⟨kind, String.ofList w⟩
  | comment {value : List Char} (line : '\n' ∉ value) (free : Source.endMark ∉ value) :
      Lexical ⟨.lineComment, String.ofList value⟩

/-- The characters of a word, with the slashes of a comment. -/
def spelling (w : Word) : List Char := w.kind.spelling w.text.toList

namespace Lexical

variable {w : Word}

theorem proper_or_comment (h : w.Lexical) :
    w.Proper ∨ w.kind = .lineComment ∧ '\n' ∉ w.text.toList ∧ Source.endMark ∉ w.text.toList := by
  cases h with
  | whole nonempty digits =>
    exact .inl ⟨by rw [String.toList_ofList]; exact .whole nonempty digits nofun, nofun⟩
  | decimal nonempty digits places decimals =>
    exact .inl ⟨by rw [String.toList_ofList]; exact .decimal nonempty digits places decimals nofun,
      nofun⟩
  | identifier first others free =>
    exact .inl ⟨by rw [String.toList_ofList]; exact .identifier first others free nofun, nofun⟩
  | @keyword kind w entry =>
    have table : ∀ e ∈ Lexeme.keywords, e.2 ≠ .lineComment := by decide
    exact .inl ⟨by rw [String.toList_ofList]; exact .keyword entry nofun, table _ entry⟩
  | operator entry proper =>
    refine .inl ⟨?_, proper⟩
    rw [String.toList_ofList]
    refine .operator entry proper fun e _ fits => ?_
    rw [List.append_nil] at fits
    exact fits.length_le
  | comment line free =>
    rw [String.toList_ofList]
    exact .inr ⟨rfl, line, free⟩

/-- A blank ends a word, and a new line ends a comment. -/
theorem munched (h : w.Lexical) {rest : List Char} (blank : ∀ c ∈ rest.head?, Text.isSpace c = true)
    (line : w.kind = .lineComment → rest.head? = some '\n') :
    Munched w.kind w.text.toList rest := by
  rcases h.proper_or_comment with proper | ⟨comment, within, -⟩
  · exact proper.munched.before_blank proper.proper blank
  · rw [comment]
    refine .comment within fun c there => ?_
    rw [line comment] at there
    exact (Option.some.inj there).symm

theorem endMark_not_mem (h : w.Lexical) : Source.endMark ∉ w.spelling := by
  rcases h.proper_or_comment with proper | ⟨comment, -, free⟩
  · rw [spelling, proper.spelling_eq]
    intro there
    cases proper.munched.solid proper.proper _ there
  · rw [spelling, comment, Kind.spelling, if_pos rfl, List.mem_cons, List.mem_cons]
    rintro (slash | slash | there)
    · cases slash
    · cases slash
    · exact free there

end Lexical

end Token.Word

/-- A word with the blanks behind it. -/
structure Spaced where
  word : Token.Word
  gap : List Char

namespace Spaced

def chars (i : Spaced) : List Char := i.word.spelling ++ i.gap

/-- A word that can be written, and at least one blank, the first one behind a comment a new line. -/
structure Valid (i : Spaced) : Prop where
  lexical : i.word.Lexical
  apart : i.gap ≠ []
  blank : ∀ c ∈ i.gap, Text.isSpace c = true
  line : i.word.kind = .lineComment → i.gap.head? = some '\n'

namespace Valid

variable {i : Spaced}

theorem munched (h : i.Valid) (rest : List Char) :
    Munched i.word.kind i.word.text.toList (i.gap ++ rest) := by
  obtain ⟨c, gap, gap_eq⟩ := List.exists_cons_of_ne_nil h.apart
  have first : (i.gap ++ rest).head? = i.gap.head? := by rw [gap_eq]; rfl
  refine h.lexical.munched ?_ fun comment => first.trans (h.line comment)
  intro d there
  rw [first] at there
  exact h.blank d (List.mem_of_mem_head? there)

theorem endMark_not_mem (h : i.Valid) : Source.endMark ∉ i.chars := by
  rw [chars, List.mem_append]
  rintro (there | there)
  · exact h.lexical.endMark_not_mem there
  · cases h.blank _ there

end Valid

end Spaced

/-- The blanks behind a word keep it apart from the next one. -/
theorem Spaced.written {front : List Char} {items : List Spaced}
    (blank : ∀ c ∈ front, Text.isSpace c = true) (valid : ∀ i ∈ items, i.Valid) :
    Written (items.map word) (front ++ items.flatMap chars) := by
  induction items generalizing front with
  | nil =>
    rw [List.flatMap_nil, List.append_nil]
    exact .nil blank
  | cons i items ih =>
    have first := valid i List.mem_cons_self
    rw [List.flatMap_cons, chars, List.append_assoc]
    exact .cons blank (first.munched _)
      (ih first.blank fun j there => valid j (List.mem_cons_of_mem i there))

/-- Scanning takes the words one by one and passes over the blanks behind them. -/
theorem Scan.scanFrom_spaced {s : Source} (reads : s.ending ≠ .failure) {items : List Spaced}
    (valid : ∀ i ∈ items, i.Valid) (p : Pos) :
    ∃ ts last after, scanFrom s p (items.flatMap Spaced.chars) = ⟨ts, .last last after⟩ ∧
      ts.map Token.word = items.map Spaced.word ∧ last.kind = .eof :=
  scanFrom_written reads (@Spaced.written [] items nofun valid) p

/-- **Scanning undoes spacing out.** Tokens written with blanks behind each of them, a new line
behind a comment, and any blanks in front are scanned without an error, and their kinds and values
are those that were written. -/
theorem Source.scan_undoes_spacing (file : String) {front : List Char} {items : List Spaced}
    (blank : ∀ c ∈ front, Text.isSpace c = true) (valid : ∀ i ∈ items, i.Valid) :
    ∃ ts, (ofBytes file
        (String.ofList (front ++ items.flatMap Spaced.chars)).toUTF8.data.toList false).scan.checked =
          .ok ts ∧
      ts.map Token.word = items.map Spaced.word := by
  have free : endMark ∉ front ++ items.flatMap Spaced.chars := by
    rw [List.mem_append, List.mem_flatMap]
    rintro (there | ⟨i, present, there⟩)
    · cases blank _ there
    · exact (valid i present).endMark_not_mem there
  have read : ofBytes file
      (String.ofList (front ++ items.flatMap Spaced.chars)).toUTF8.data.toList false =
      ⟨file, front ++ items.flatMap Spaced.chars, false⟩ := by
    rw [ofBytes, Text.decode_toUTF8, String.toList_ofList]
  have reads := ending_ne_failure (s := ⟨file, front ++ items.flatMap Spaced.chars, false⟩) rfl
  obtain ⟨ts, last, after, scanned, words, atEnd⟩ :=
    Scan.scanFrom_spaced reads valid (Pos.after {} front)
  refine ⟨ts, ?_, words⟩
  rw [read, scan, body_eq_chars free, Scan.scanFrom_blank _ _ _ blank, scanned, Scan.checked]
  exact if_neg (by simp [atEnd])

/-- A comment over a new line, operators that start alike, a name that starts like a keyword, and
blanks of several kinds. -/
def spacedOut : List Spaced := [
  ⟨⟨.lineComment, " two\x09slashes // let"⟩, ['\n', ' ']⟩,
  ⟨⟨.identifier, "lets"⟩, [' ']⟩, ⟨⟨.assign, "="⟩, [' ']⟩, ⟨⟨.equal, "=="⟩, ['\u2003', '\x09']⟩,
  ⟨⟨.equal, "==="⟩, [' ']⟩, ⟨⟨.let, "let"⟩, ['\r', '\n']⟩, ⟨⟨.number, "0.50"⟩, ['\x0c']⟩]

theorem Source.scan_undoes_spacing_alike :
    (∀ i ∈ spacedOut, i.Valid) ∧
    ∃ ts, (ofBytes "spaced" (String.ofList (['\u00A0'] ++ spacedOut.flatMap Spaced.chars)
        ).toUTF8.data.toList false).scan.checked = .ok ts ∧
      ts.map Token.word = spacedOut.map Spaced.word := by
  have valid : ∀ i ∈ spacedOut, i.Valid := by
    simp only [spacedOut, List.forall_mem_cons]
    refine ⟨⟨@Lexical.comment " two\x09slashes // let".toList ?_ ?_, ?_, ?_, fun _ => rfl⟩,
      ⟨@Lexical.identifier 'l' ['e', 't', 's'] ?_ ?_ ?_, ?_, ?_, nofun⟩,
      ⟨@Lexical.operator .assign ['='] ?_ ?_, ?_, ?_, nofun⟩,
      ⟨@Lexical.operator .equal ['=', '='] ?_ ?_, ?_, ?_, nofun⟩,
      ⟨@Lexical.operator .equal ['=', '=', '='] ?_ ?_, ?_, ?_, nofun⟩,
      ⟨@Lexical.keyword .let ['l', 'e', 't'] ?_, ?_, ?_, nofun⟩,
      ⟨@Lexical.decimal ['0'] ['5', '0'] ?_ ?_ ?_ ?_, ?_, ?_, nofun⟩, nofun⟩
    -- A claim about the characters of a list goes through the list, not through all characters.
    all_goals first
      | exact List.all_eq_true.1 (by decide +kernel)
      | decide +kernel
  exact ⟨valid, scan_undoes_spacing "spaced" (List.forall_mem_singleton.2 rfl) valid⟩

/-! ## Blanks that may be left out -/

namespace Token

/-- The character does not go on with the word. -/
def Word.endsBefore (w : Word) (c : Char) : Bool :=
  if w.kind = .number then !Text.isAsciiDigit c && c != '.'
  else if w.text.toList.all Lexeme.inWord then !Lexeme.inWord c
  else Lexeme.operators.all fun e => !(w.text.toList ++ [c]).isPrefixOf e.1

theorem Word.Proper.before {w : Word} (h : w.Proper) {c : Char} (ends : w.endsBefore c = true)
    (cs : List Char) : Munched w.kind w.text.toList (c :: cs) := by
  obtain ⟨munched, proper⟩ := h
  unfold endsBefore at ends
  generalize w.kind = kind at *
  generalize w.text.toList = value at *
  cases munched with
  | whole nonempty digits =>
    refine .whole nonempty digits ?_
    intro d there
    cases there
    simpa using ends
  | decimal nonempty digits places decimals =>
    refine .decimal nonempty digits places decimals ?_
    intro d there
    cases there
    simp only [if_true, Bool.and_eq_true, Bool.not_eq_true'] at ends
    exact ends.1
  | keyword entry =>
    have table : ∀ e ∈ Lexeme.keywords, e.2 ≠ .number := by decide
    rw [if_neg (table _ entry), if_pos (List.all_eq_true.2 (Lexeme.inWord_of_keyword entry))] at ends
    refine .keyword entry ?_
    intro d there
    cases there
    simpa using ends
  | @identifier d ds _ first others free =>
    have letters : ∀ x ∈ d :: ds, Lexeme.inWord x = true :=
      List.forall_mem_cons.2 ⟨Lexeme.inWord_of_startsWord first, others⟩
    rw [if_neg nofun, if_pos (List.all_eq_true.2 letters)] at ends
    refine .identifier first others free ?_
    intro d there
    cases there
    simpa using ends
  | operator entry =>
    have table : ∀ e ∈ Lexeme.operators, e.2 ≠ .number ∧ e.1.all Lexeme.inWord = false := by
      decide
    obtain ⟨number, letters⟩ := table _ entry
    rw [if_neg number, letters, if_neg Bool.false_ne_true] at ends
    refine .operator entry proper ?_
    intro e there fits
    by_contra longer
    -- An operator that goes on takes the character.
    have taken : value ++ [c] <+: e.1 := by
      apply List.prefix_of_prefix_length_le _ fits
      · rw [List.length_append, List.length_singleton]
        omega
      · exact ⟨cs, by rw [List.append_assoc]; rfl⟩
    have apart := List.all_eq_true.1 ends e there
    rw [Bool.not_eq_true', ← Bool.not_eq_true, List.isPrefixOf_iff_prefix] at apart
    exact apart taken
  | comment => exact absurd rfl proper

end Token

namespace Spaced

/-- There are blanks behind the word, or the next word does not go on with it. -/
def apart (i j : Spaced) : Bool :=
  !i.gap.isEmpty || j.word.text.toList.head?.any i.word.endsBefore

/-- Blanks may be left out between words that do not go on with one another. -/
theorem written_of_apart {front : List Char} {items : List Spaced}
    (blank : ∀ c ∈ front, Text.isSpace c = true)
    (blanks : ∀ i ∈ items, ∀ c ∈ i.gap, Text.isSpace c = true)
    (proper : ∀ i ∈ items, i.word.Proper) (chain : items.IsChain fun i j => i.apart j = true) :
    Written (items.map word) (front ++ items.flatMap chars) := by
  induction items generalizing front with
  | nil =>
    rw [List.flatMap_nil, List.append_nil]
    exact .nil blank
  | cons i items ih =>
    have first := proper i List.mem_cons_self
    have gap := blanks i List.mem_cons_self
    have more := ih gap (fun j there => blanks j (List.mem_cons_of_mem i there))
      (fun j there => proper j (List.mem_cons_of_mem i there)) chain.of_cons
    rw [List.flatMap_cons, chars, List.append_assoc]
    refine .cons blank ?_ more
    cases spaces : i.gap with
    | cons c cs =>
      apply first.munched.before_blank first.proper
      intro d there
      cases there
      exact gap c (by simp [spaces])
    | nil =>
      cases items with
      | nil => exact first.munched
      | cons j items =>
        have kept := (List.isChain_cons_cons.1 chain).1
        simp only [apart, spaces, List.isEmpty_nil, Bool.not_true, Bool.false_or,
          Option.any_eq_true] at kept
        obtain ⟨c, head, ends⟩ := kept
        obtain ⟨cs, text⟩ := List.head?_eq_some_iff.1 head
        have next := proper j (by simp)
        rw [List.nil_append, List.flatMap_cons, chars, Token.Word.spelling, next.spelling_eq, text]
        exact first.before ends _

end Spaced

end LetWhile
