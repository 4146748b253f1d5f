import LetWhile.Text.Printable
import LetWhile.Text.Space
import LetWhile.Text.Utf8

/-! Texts in double quotes, with a backslash before what does not show as itself. -/
namespace LetWhile.Text

/-- The last `width` hexadecimal digits of a number. -/
def hexDigits (width n : Nat) : List Char :=
  let ds := Nat.toDigits 16 n
  List.replicate (width - ds.length) '0' ++ ds

def escape (c : Char) : List Char :=
  match c with
  | '"' => ['\\', '"']
  | '\\' => ['\\', '\\']
  | '\x07' => ['\\', 'a']
  | '\x08' => ['\\', 'b']
  | '\x0c' => ['\\', 'f']
  | '\n' => ['\\', 'n']
  | '\r' => ['\\', 'r']
  | '\t' => ['\\', 't']
  | '\x0b' => ['\\', 'v']
  | c =>
    let n := c.toNat
    if isPrintable c then [c]
    else if n < 0x80 then '\\' :: 'x' :: hexDigits 2 n
    else if n < 0x10000 then '\\' :: 'u' :: hexDigits 4 n
    else '\\' :: 'U' :: hexDigits 8 n

def quote (s : String) : String := String.ofList ('"' :: s.toList.flatMap escape ++ ['"'])

/-- A byte that starts no character is shown by its number. -/
def escapeBytes : List UInt8 → List Char
  | [] => []
  | b :: bs =>
    match sequence? b bs with
    | some (c, n) => escape c ++ escapeBytes (bs.drop n)
    | none => '\\' :: 'x' :: hexDigits 2 b.toNat ++ escapeBytes bs
termination_by bs => bs.length
decreasing_by all_goals simp only [List.length_cons, List.length_drop]; omega

def quoteBytes (bs : List UInt8) : String := String.ofList ('"' :: escapeBytes bs ++ ['"'])

/-- A character that a field of a log line cannot hold bare. -/
def needsQuotes (c : Char) : Bool :=
  let n := c.toNat
  if n < 0x80 then n ≤ 0x20 || c = '=' || c = '"'
  else c = replacement || isSpace c || !isPrintable c

/-- The text itself, or in quotes where it is empty or would not stand as one word. -/
def quoteIfNeeded (s : String) : String :=
  if s.isEmpty || s.toList.any needsQuotes then quote s else s

end LetWhile.Text
