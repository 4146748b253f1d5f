import LetWhile.Yaml.Atom.Read
import LetWhile.Yaml.Cursor

/-!
How a text is written: plain if it can be and is then read back as a text, else in single quotes, else
in double quotes. A text with line feeds is written line by line below its key, if that can be.
-/
namespace LetWhile.Yaml

inductive Style where
  | plain | single | double | literal
  deriving DecidableEq, Repr

namespace Style

/-- Words that were truth values once. -/
def oldBools : List String := [
  "y", "Y", "yes", "Yes", "YES", "on", "On", "ON", "n", "N", "no", "No", "NO", "off", "Off", "OFF"]

/-- Digits and underscores. -/
def isDigits (cs : List Char) : Bool := cs.all fun c => Text.isAsciiDigit c || c = '_'

/-- A number below sixty. -/
def isSixtieth : List Char → Bool
  | [c] => Text.isAsciiDigit c
  | [c, d] => '0' ≤ c && c ≤ '5' && Text.isAsciiDigit d
  | _ => false

/-- A number in base sixty, with colons between its digits and maybe a fraction behind them. -/
def isSexagesimal (cs : List Char) : Bool :=
  let body := match cs with
    | '+' :: rest | '-' :: rest => rest
    | cs => cs
  match body.splitOn ':' with
  | first :: second :: rest =>
    let digits := second :: rest
    let last := digits.getLast?.getD []
    first.head?.any Text.isAsciiDigit && isDigits first && digits.dropLast.all isSixtieth &&
      isSixtieth (last.takeWhile (· ≠ '.')) && isDigits ((last.dropWhile (· ≠ '.')).drop 1)
  | _ => false

/-- Whether a text would be read back as one if it were written plain. -/
def isText (s : String) : Bool :=
  (Atom.ofForm true s).tag = .str && !(s ∈ oldBools || isSexagesimal s.toList)

/-- A character that can be written as it is. -/
def isShown (c : Char) : Bool :=
  let n := c.toNat
  n = 0x0A || (0x20 ≤ n && n ≤ 0x7E) || (0xA0 ≤ n && n ≤ 0xFFFD && n ≠ 0xFEFF)

/-- A character that can only be written in double quotes. -/
def isSpecial (c : Char) : Bool := !isShown c && c ≠ '\t'

/-- Whether two characters that pass the tests stand side by side. -/
def hasPair (p q : Char → Bool) (cs : List Char) : Bool := (cs.zip cs.tail).any fun (a, b) => p a && q b

def isSpace (c : Char) : Bool := c = ' '

/-- Whether a blank or nothing follows. -/
def standsAlone (after : List Char) : Bool := after.head?.all isBlank

/-- Whether a text starts like something other than a plain scalar. -/
def startsMarked : List Char → Bool
  | [] => false
  | c :: rest =>
    let start := (c :: rest).take 3
    start = ['-', '-', '-'] || start = ['.', '.', '.'] ||
    c ∈ ['#', ',', '[', ']', '\x7b', '\x7d', '&', '*', '!', '|', '>', '\'', '"', '%', '@', '\x60'] ||
    (c ∈ ['?', ':', '-'] && standsAlone rest)

/-- Whether a colon that stands alone or a comment comes in a text. -/
def hasMark (before : Char) : List Char → Bool
  | [] => false
  | c :: rest => (c = ':' && standsAlone rest) || (c = '#' && endsWord before) || hasMark c rest

/-- Whether a text can be written in single quotes. -/
def fitsSingle (cs : List Char) : Bool :=
  !cs.any (fun c => isSpecial c || c = '\t') && !hasPair isSpace isBreak cs && !hasPair isBreak isSpace cs

/-- Whether a text can be written without quotes. -/
def fitsPlain (cs : List Char) : Bool :=
  let hasMarkWithin := match cs with
    | [] => false
    | c :: rest => hasMark c rest
  fitsSingle cs && !cs.any isBreak && !cs.head?.any isSpace && !cs.getLast?.any isSpace &&
    !startsMarked cs && !hasMarkWithin

/-- Whether a text can be written line by line. -/
def fitsLiteral (cs : List Char) : Bool :=
  !cs.any isSpecial && !hasPair isSpace isBreak cs && !cs.getLast?.any isSpace

def ofText (s : String) : Style :=
  let cs := s.toList
  if cs.contains '\n' then (if fitsLiteral cs then .literal else .double)
  else if !isText s then .double
  else if fitsPlain cs then .plain
  else if fitsSingle cs then .single
  else .double

/-- The letter that stands for a character behind a backslash. -/
def escapeLetter? : Char → Option Char
  | '\x00' => some '0'
  | '\x07' => some 'a'
  | '\x08' => some 'b'
  | '\t' => some 't'
  | '\n' => some 'n'
  | '\x0b' => some 'v'
  | '\x0c' => some 'f'
  | '\r' => some 'r'
  | '\x1b' => some 'e'
  | '"' => some '"'
  | '\\' => some '\\'
  | '\u0085' => some 'N'
  | '\u00a0' => some '_'
  | '\u2028' => some 'L'
  | '\u2029' => some 'P'
  | _ => none

def escape (c : Char) : List Char :=
  let code (mark : Char) (width : Nat) : List Char :=
    let ds := (Nat.toDigits 16 c.toNat).map Char.toUpper
    '\\' :: mark :: List.replicate (width - ds.length) '0' ++ ds
  match escapeLetter? c with
  | some letter => ['\\', letter]
  | none =>
    if c.toNat ≤ 0xFF then code 'x' 2 else if c.toNat ≤ 0xFFFF then code 'u' 4 else code 'U' 8

/-- A text that starts with a byte order mark has all its characters escaped. -/
def inDouble (cs : List Char) : List Char :=
  let all := cs.head? = some '\uFEFF'
  let char (c : Char) :=
    if all || !isShown c || isBreak c || c = '"' || c = '\\' then escape c else [c]
  '"' :: cs.flatMap char ++ ['"']

/-- How deep lines below a key are indented. -/
def indent : List Char := [' ', ' ', ' ', ' ']

/-- Indents what follows a line break, `fresh` if one comes before. -/
def indented (char : Char → List Char) (fresh : Bool) : List Char → List Char
  | [] => []
  | c :: cs =>
    if isBreak c then c :: indented char true cs
    else (if fresh then indent else []) ++ char c ++ indented char false cs

def inSingle (cs : List Char) : List Char :=
  '\'' :: indented (fun c => if c = '\'' then ['\'', '\''] else [c]) false cs ++ ['\'']

/-- The marks that tell how to read lines: the indentation if the first one starts with a blank, and
whether the text ends without a line break or with several. -/
def hints (cs : List Char) : List Char :=
  let depth := if cs.head?.any fun c => isSpace c || isBreak c then ['4'] else []
  let ending := match cs.reverse with
    | [] => ['-']
    | [c] => if isBreak c then ['+'] else ['-']
    | c :: d :: _ => if !isBreak c then ['-'] else if isBreak d then ['+'] else []
  depth ++ ending

def inLines (cs : List Char) : List Char :=
  let start := if cs.head?.any isBreak then [] else ['\n']
  '|' :: hints cs ++ start ++ indented ([·]) true cs

/-- A text as it is written. -/
def write (s : String) : String :=
  let cs := s.toList
  match ofText s with
  | .plain => s
  | .single => String.ofList (inSingle cs)
  | .double => String.ofList (inDouble cs)
  | .literal => String.ofList (inLines cs)

end Style

end LetWhile.Yaml
