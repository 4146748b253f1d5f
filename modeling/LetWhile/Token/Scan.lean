import LetWhile.Text.Utf8
import LetWhile.Text.Space
import LetWhile.Text.Letter
import LetWhile.Text.Digit
import LetWhile.Token

/-!
From characters to tokens. Blanks are passed over; at every other place the longest number, word,
comment or operator is taken. The null character ends a text like its last character does. Scanning
stops with one last token, the end of the text or the first error.
-/
namespace LetWhile

/-- A text to scan, and whether reading beyond its last character fails or reports the end. -/
structure Source where
  file : String
  chars : List Char
  fails : Bool := false

namespace Source

def ofBytes (file : String) (bytes : List UInt8) (fails : Bool) : Source :=
  ⟨file, Text.decode bytes, fails⟩

/-- The null character. -/
def endMark : Char := '\x00'

/-- The characters before the first end mark. -/
def body (s : Source) : List Char := s.chars.takeWhile (· ≠ endMark)

/-- What stands behind the body. -/
inductive Ending where
  | mark | endOfFile | failure
  deriving DecidableEq, Repr

def ending (s : Source) : Ending :=
  if endMark ∈ s.chars then .mark else if s.fails then .failure else .endOfFile

end Source

/-- A place in the text that is being scanned. -/
structure Pos where
  line : Nat := 1
  col : Nat := 1
  deriving DecidableEq, Repr

namespace Pos

def next (p : Pos) (c : Char) : Pos := if c = '\n' then ⟨p.line + 1, 1⟩ else ⟨p.line, p.col + 1⟩

/-- The place after passing over some characters. -/
def after (p : Pos) (cs : List Char) : Pos := cs.foldl next p

def toLoc (p : Pos) (file : String) : Loc := ⟨file, p.line, p.col⟩

end Pos

/-- The first lexeme of a text that starts with no blank. A token has a value, which is its lexeme
except in a comment; `broken` is a start that no lexeme has, as far as it was read. -/
inductive Lexeme where
  | token (kind : Token.Kind) (value lexeme rest : List Char)
  | broken (message : String) (lexeme rest : List Char)
  deriving DecidableEq, Repr

namespace Lexeme

def keywords : List (List Char × Token.Kind) := [
  (['l', 'e', 't'], .let), (['i', 'f'], .if), (['e', 'l', 's', 'e'], .else),
  (['w', 'h', 'i', 'l', 'e'], .while), (['p', 'r', 'i', 'n', 't'], .print),
  (['r', 'e', 't', 'u', 'r', 'n'], .return), (['t', 'r', 'u', 'e'], .true),
  (['f', 'a', 'l', 's', 'e'], .false)]

/-- The operators, longer ones first. Two slashes open a comment. -/
def operators : List (List Char × Token.Kind) := [
  (['=', '=', '='], .equal),
  (['=', '='], .equal), (['&', '&'], .and), (['|', '|'], .or), (['/', '/'], .lineComment),
  (['+'], .plus), (['-'], .minus), (['*'], .multi), (['/'], .div), (['>'], .greater),
  (['<'], .less), (['='], .assign), ([';'], .semicolon), (['('], .openParen),
  ([')'], .closeParen), (['{'], .openCurly), (['}'], .closeCurly)]

def startsWord (c : Char) : Bool := Text.isLetter c || c = '_'

def inWord (c : Char) : Bool := Text.isLetter c || Text.isDigit c || c = '_'

/-- Digits, and after a point at least one more. -/
def number (cs : List Char) : Lexeme :=
  let whole := cs.takeWhile Text.isAsciiDigit
  match cs.dropWhile Text.isAsciiDigit with
  | '.' :: rest =>
    let places := rest.takeWhile Text.isAsciiDigit
    let rest := rest.dropWhile Text.isAsciiDigit
    let lexeme := whole ++ '.' :: places
    if places.isEmpty then .broken s!"malformed number '{String.ofList lexeme}'" lexeme rest
    else .token .number lexeme lexeme rest
  | rest => .token .number whole whole rest

def word (cs : List Char) : Lexeme :=
  let w := cs.takeWhile inWord
  .token ((keywords.lookup w).getD .identifier) w w (cs.dropWhile inWord)

/-- A comment runs to the end of its line. -/
def comment (cs : List Char) : Lexeme :=
  let value := cs.takeWhile (· ≠ '\n')
  .token .lineComment value ('/' :: '/' :: value) (cs.dropWhile (· ≠ '\n'))

def cannotRead (c : Char) : String := s!"invalid symbol '{c}'"

def operator (c : Char) (cs : List Char) : Lexeme :=
  match operators.find? (·.1.isPrefixOf (c :: cs)) with
  | some (_, .lineComment) => comment (cs.drop 1)
  | some (symbol, kind) => .token kind symbol symbol ((c :: cs).drop symbol.length)
  | none => .broken (cannotRead c) [c] cs

def read (c : Char) (cs : List Char) : Lexeme :=
  if Text.isAsciiDigit c then number (c :: cs)
  else if startsWord c then word (c :: cs)
  else operator c cs

def rest : Lexeme → List Char
  | .token _ _ _ rest => rest
  | .broken _ _ rest => rest

theorem length_dropWhile_le (p : Char → Bool) (cs : List Char) :
    (cs.dropWhile p).length ≤ cs.length := (List.dropWhile_sublist p).length_le

theorem length_dropWhile_cons_lt (p : Char → Bool) {c : Char} (cs : List Char) (h : p c = true) :
    ((c :: cs).dropWhile p).length < (c :: cs).length := by
  have := length_dropWhile_le p cs
  simp only [List.dropWhile_cons, h, if_true, List.length_cons]
  omega

theorem length_number_lt {c : Char} (cs : List Char) (h : Text.isAsciiDigit c = true) :
    (number (c :: cs)).rest.length < (c :: cs).length := by
  have hlt := length_dropWhile_cons_lt Text.isAsciiDigit cs h
  unfold number
  split
  · rename_i r heq
    have hle := length_dropWhile_le Text.isAsciiDigit r
    rw [heq, List.length_cons] at hlt
    dsimp only
    split <;> simp only [rest] <;> omega
  · simpa only [rest] using hlt

theorem length_operator_lt (c : Char) (cs : List Char) :
    (operator c cs).rest.length < (c :: cs).length := by
  unfold operator
  split
  · have hle := length_dropWhile_le (· ≠ '\n') (cs.drop 1)
    simp only [comment, rest, List.length_cons, List.length_drop] at hle ⊢
    omega
  · rename_i symbol kind _ hfind
    have hmem := List.mem_of_find?_eq_some hfind
    have hpos : ∀ e ∈ operators, 0 < e.1.length := by decide
    have := hpos _ hmem
    simp only [rest, List.length_drop, List.length_cons] at this ⊢
    omega
  · simp [rest]

/-- Every lexeme takes at least one character. -/
theorem length_rest_lt (c : Char) (cs : List Char) :
    (read c cs).rest.length < (c :: cs).length := by
  unfold read
  split
  · exact length_number_lt cs ‹_›
  · split
    · rename_i h
      refine length_dropWhile_cons_lt inWord cs ?_
      simp only [startsWord, Bool.or_eq_true, decide_eq_true_eq] at h
      simp only [inWord, Bool.or_eq_true, decide_eq_true_eq]
      rcases h with h | h
      · exact .inl (.inl h)
      · exact .inr h
    · exact length_operator_lt c cs

end Lexeme

/-- How scanning stops: with a last token, the place behind it being `after`, or never. The scanner
waits without end when reading fails inside a comment, since a failed read passes no character and
ends no line. -/
inductive Stop where
  | last (token : Token) (after : Pos)
  | never
  deriving DecidableEq, Repr

/-- The tokens before the stop, and the stop. -/
structure Scan where
  tokens : List Token
  stop : Stop
  deriving DecidableEq, Repr

namespace Scan

/-- The stop behind the body of a source. A failed read is seen as a symbol that cannot be read. -/
def finish (s : Source) (p : Pos) : Scan :=
  let loc := some (p.toLoc s.file)
  match s.ending with
  | .endOfFile => ⟨[], .last ⟨.eof, "\x00", loc⟩ p⟩
  | .mark => ⟨[], .last ⟨.eof, "\x00", loc⟩ (p.next Source.endMark)⟩
  | .failure => ⟨[], .last ⟨.error, Lexeme.cannotRead Text.replacement, loc⟩ p⟩

def scanFrom (s : Source) (p : Pos) : List Char → Scan
  | [] => finish s p
  | c :: cs =>
    if Text.isSpace c then scanFrom s (p.next c) cs
    else match _ : Lexeme.read c cs with
      | .broken message lexeme _ =>
        ⟨[], .last ⟨.error, message, some (p.toLoc s.file)⟩ (p.after lexeme)⟩
      | .token kind value lexeme rest =>
        if kind = .lineComment ∧ rest = [] ∧ s.ending = .failure then ⟨[], .never⟩
        else
          let more := scanFrom s (p.after lexeme) rest
          ⟨⟨kind, String.ofList value, some (p.toLoc s.file)⟩ :: more.tokens, more.stop⟩
termination_by cs => cs.length
decreasing_by
  · simp
  · rename_i h _
    have := Lexeme.length_rest_lt c cs
    simpa only [h, Lexeme.rest] using this

end Scan

/-- The tokens of a source. -/
def Source.scan (s : Source) : Scan := Scan.scanFrom s {} s.body

namespace Scan

/-- Everything the scanner delivers up to its last token. -/
def stream (s : Scan) : List Token :=
  match s.stop with
  | .last t _ => s.tokens ++ [t]
  | .never => s.tokens

/-- What a scanner that has stopped delivers when asked again. -/
def afterwards (file : String) (s : Scan) : Option Token :=
  match s.stop with
  | .last _ p => some ⟨.eof, "", some (p.toLoc file)⟩
  | .never => none

/-- The ordinary tokens of a text without an error, or the error with its place. -/
def checked (s : Scan) : Except String (List Token) :=
  match s.stop with
  | .last t _ =>
    if t.kind = .error then .error s!"{Loc.describe t.loc}: {t.text}" else .ok s.tokens
  | .never => .ok s.tokens

end Scan

end LetWhile
