import LetWhile.Decimal.Read
import LetWhile.Yaml.Source

/-! Walking through the characters of a text. -/
namespace LetWhile.Yaml

/-- Stands for the end of a text, which holds no such character. -/
def eof : Char := '\x00'

def isBlank (c : Char) : Bool := c = ' ' || c = '\t'

def isBreak (c : Char) : Bool :=
  c = '\n' || c = '\r' || c = '\u0085' || c = '\u2028' || c = '\u2029'

/-- Ends a line. -/
def endsLine (c : Char) : Bool := isBreak c || c = eof

/-- Ends a word. -/
def endsWord (c : Char) : Bool := isBlank c || endsLine c

/-- A letter of a name. -/
def isNameChar (c : Char) : Bool :=
  ('0' ≤ c && c ≤ '9') || ('A' ≤ c && c ≤ 'Z') || ('a' ≤ c && c ≤ 'z') || c = '_' || c = '-'

/-- The value of a hexadecimal digit. -/
def hexDigit? (c : Char) : Option Nat := Number.digit? true c

/-- The byte order mark. -/
def bom : Char := '\uFEFF'

/-- A place in a text and what follows it. Characters are looked at in a store, which is filled up
from this place on when it has too few. -/
structure Cursor where
  rest : List Char
  flaw : Option Flaw
  /-- How many characters are left in the store; the end of the text counts as one each time that it is
  met. -/
  store : Nat
  /-- Whether the store, as it was filled the last time, starts with a byte order mark. -/
  marked : Bool
  /-- The length of the whole text. -/
  size : Nat
  mark : Mark := {}
  /-- Whether only blanks stand between the last line break and this place. -/
  newLine : Bool := false

namespace Cursor

def ofSource (s : Source) : Cursor where
  rest := s.chars
  flaw := s.flaw
  store := s.first
  marked := s.chars.head? = some bom
  size := s.chars.length

/-- Passes over a part of a line, after which `rest` follows. -/
def pass (c : Cursor) (part rest : List Char) : Cursor :=
  let n := part.length
  { c with
    rest
    store := c.store - n
    mark := { c.mark with index := c.mark.index + n, column := c.mark.column + n }
    newLine := c.newLine && part.all isBlank }

/-- Passes over a line break of `n` characters. -/
def passBreak (c : Cursor) (n : Nat) (rest : List Char) : Cursor :=
  { c with
    rest
    store := c.store - n
    mark := ⟨c.mark.index + n, c.mark.line + 1, 0⟩
    newLine := true }

end Cursor

/-- What reads a part of a text. -/
abbrev Scan := StateT Cursor (Except Error)

/-- Runs `step` up to `fuel` times, as long as it says that there is more. -/
def gatherUpTo {m : Type → Type} [Monad m] {α : Type} (fuel : Nat) (step : m (α × Bool)) :
    m (List α) :=
  match fuel with
  | 0 => return []
  | fuel + 1 => do
    let (a, more) ← step
    if more then return a :: (← gatherUpTo fuel step) else return [a]

namespace Scan

def mark : Scan Mark := return (← get).mark

/-- Fills the store up if it has less than `n` characters. -/
def need (n : Nat) : Scan Unit := do
  let c ← get
  if c.store < n then
    let left := c.rest.length
    match c.flaw with
    | some flaw => if left < n then throw (.unreadable flaw)
    | none => pure ()
    set { c with
      store := if c.store < left then left else c.store + 1
      marked := c.rest.head? = some bom }

/-- Fills the store up if it has less than `n` characters and they can be had. -/
def want (n : Nat) : Scan Unit := do
  let c ← get
  if c.flaw.isNone || n ≤ c.rest.length then need n

/-- The character that is `n` places ahead. -/
def peek (n : Nat := 0) : Scan Char := do
  need (n + 1)
  return (← get).rest.getD n eof

/-- What started at `start` goes wrong here. -/
def fail {α : Type} (start : Mark) (p : Problem) : Scan α := do
  throw (.word start (← mark) p)

/-- Passes over `n` characters of a line. -/
def skip (n : Nat) : Scan Unit :=
  modify fun c => c.pass (c.rest.take n) (c.rest.drop n)

/-- Takes the characters of a line that pass a test. -/
def takeWhile (p : Char → Bool) : Scan (List Char) :=
  modifyGet fun c =>
    let (part, rest) := c.rest.span p
    (part, c.pass part rest)

def skipWhile (p : Char → Bool) : Scan Unit := do
  let _ ← takeWhile p

/-- A byte order mark may start a line. It is the start of the store that is looked at, and not this
place: behind one mark at the start of the text, the first character of every line is passed over. -/
def skipMark : Scan Unit := do
  let c ← get
  if c.mark.column = 0 && c.marked then skip 1

/-- Passes over a line break, if there is one. A break that only ends a line counts as a line feed; one
that also separates lines or paragraphs stays what it is. -/
def lineBreak? : Scan (Option Char) := do
  if isBreak (← peek) then need 2
  modifyGet fun c =>
    match c.rest with
    | '\r' :: '\n' :: rest => (some '\n', c.passBreak 2 rest)
    | b :: rest =>
      if isBreak b then
        (some (if b = '\u2028' || b = '\u2029' then b else '\n'), c.passBreak 1 rest)
      else (none, c)
    | [] => (none, c)

/-- Runs `step` as long as it says that there is more, at most once for every character of the text
and once for its end. -/
def gather {α : Type} (step : Scan (α × Bool)) : Scan (List α) := do
  gatherUpTo ((← get).size + 1) step

/-- Passes over blanks and line breaks, and gives the breaks. `check` is run after the spaces at the
front of every line. -/
def breaks (check : Scan Unit := pure ()) : Scan (List Char) := do
  let found ← gather do
    skipWhile (· = ' ')
    check
    skipWhile isBlank
    let found ← lineBreak?
    return (found, found.isSome)
  return found.filterMap id

/-- Passes over a comment up to the end of its line. -/
def comment : Scan Unit := skipWhile (!endsLine ·)

/-- Whether a mark that starts or ends a document stands here. -/
def atDocument (char : Char) : Scan Bool := do
  let c ← get
  return c.mark.column = 0 && c.rest.take 3 = [char, char, char] && (c.rest.drop 3).head?.all endsWord

def atAnyDocument : Scan Bool := do
  need 4
  return (← atDocument '-') || (← atDocument '.')

end Scan

end LetWhile.Yaml
