import LetWhile.Double

/-!
Numbers as text. A number is an optional sign, digits with an optional point among or around them
and an optional exponent of ten; or the same in base sixteen after `0x`, with a required exponent of
two; or the word `inf`, `infinity` (with or without a sign) or `nan`, in any case. An underscore may
stand between two digits, or between the base mark and a digit. A number too large for a double is
refused; one too small is zero.
-/
namespace LetWhile.Number

def lower (c : Char) : Char := if 'A' ≤ c ∧ c ≤ 'Z' then Char.ofNat (c.toNat + 32) else c

/-- The value of a digit in base ten, or sixteen when `hex`. -/
def digit? (hex : Bool) (c : Char) : Option Nat :=
  if '0' ≤ c ∧ c ≤ '9' then some (c.toNat - '0'.toNat)
  else if hex ∧ 'a' ≤ lower c ∧ lower c ≤ 'f' then some ((lower c).toNat - 'a'.toNat + 10)
  else none

/-- Digits read so far: their value, how many of them stand after the point, and what was seen. -/
structure Mantissa where
  value : Nat := 0
  places : Nat := 0
  point : Bool := false
  digits : Bool := false

/-- The longest run of digits, underscores and at most one point, and what follows it. -/
def readMantissa (hex : Bool) (m : Mantissa) : List Char → Mantissa × List Char
  | [] => (m, [])
  | c :: cs =>
    if c = '_' then readMantissa hex m cs
    else if c = '.' then
      if m.point then (m, c :: cs) else readMantissa hex { m with point := true } cs
    else match digit? hex c with
      | some d =>
        readMantissa hex { m with
          value := m.value * (if hex then 16 else 10) + d
          places := if m.point then m.places + 1 else m.places
          digits := true } cs
      | none => (m, c :: cs)

/-- The digits of an exponent, underscores passed over. An exponent stops growing at 10000: it is
far beyond every double by then. -/
def readExponent (e : Nat) : List Char → Nat × List Char
  | [] => (e, [])
  | c :: cs =>
    if c = '_' then readExponent e cs
    else match digit? false c with
      | some d => readExponent (if e < 10000 then e * 10 + d else e) cs
      | none => (e, c :: cs)

/-- The exponent that `mark` introduces, if the text starts with the mark; `none` if it is broken. -/
def exponent? (mark : Char) (cs : List Char) : Option (Option Int × List Char) :=
  match cs with
  | [] => some (none, [])
  | c :: rest =>
    if lower c ≠ mark then some (none, c :: rest)
    else
      let (negative, rest) := match rest with
        | '+' :: r => (false, r)
        | '-' :: r => (true, r)
        | r => (false, r)
      match rest with
      | [] => none
      | d :: _ =>
        if (digit? false d).isNone then none
        else
          let (e, rest) := readExponent 0 rest
          some (some (if negative then -(e : Int) else e), rest)

/-- What stands before a character, as far as underscores care. -/
inductive Before where
  | start | digit | underscore | other
  deriving DecidableEq

/-- Every underscore stands between two digits. -/
def underscoresFit (hex : Bool) : Before → List Char → Bool
  | before, [] => before ≠ .underscore
  | before, c :: cs =>
    if (digit? hex c).isSome then underscoresFit hex .digit cs
    else if c = '_' then before = .digit && underscoresFit hex .underscore cs
    else before ≠ .underscore && underscoresFit hex .other cs

/-- The double nearest to `mantissa · base ^ exponent`, unless that is infinite. -/
def nearest? (negative : Bool) (mantissa base : Nat) (exponent : Int) : Option Float :=
  let num := mantissa * Nat.pow base exponent.toNat * Double.one
  let code := Double.nearest num (Nat.pow base (-exponent).toNat)
  if code < Double.infinity then some (Double.ofCode negative code) else none

def decimal? (negative : Bool) (cs : List Char) : Option Float := do
  let (m, rest) := readMantissa false {} cs
  if !m.digits then none
  let (e, rest) ← exponent? 'e' rest
  if !rest.isEmpty then none
  if !underscoresFit false .start cs then none
  nearest? negative m.value 10 (e.getD 0 - m.places)

def hexadecimal? (negative : Bool) (cs : List Char) : Option Float := do
  let (m, rest) := readMantissa true {} cs
  if !m.digits then none
  let (e, rest) ← exponent? 'p' rest
  let e ← e
  if !rest.isEmpty then none
  if !underscoresFit true .digit cs then none
  nearest? negative m.value 2 (e - 4 * m.places)

def unsigned? (negative : Bool) (cs : List Char) : Option Float :=
  match cs with
  | '0' :: x :: c :: rest =>
    if lower x = 'x' then hexadecimal? negative (c :: rest) else decimal? negative cs
  | _ => decimal? negative cs

/-- The word for infinity or for no number. -/
def word? (signed negative : Bool) (cs : List Char) : Option Float :=
  let w := cs.map lower
  if w = ['i', 'n', 'f'] ∨ w = ['i', 'n', 'f', 'i', 'n', 'i', 't', 'y'] then
    some (Double.ofCode negative Double.infinity)
  else if w = ['n', 'a', 'n'] ∧ !signed then some (Double.ofCode false Double.nan)
  else none

def readChars (cs : List Char) : Option Float :=
  let (signed, negative, body) := match cs with
    | '+' :: r => (true, false, r)
    | '-' :: r => (true, true, r)
    | r => (false, false, r)
  word? signed negative body <|> unsigned? negative body

/-- The double that a text names, if it names one. -/
def read? (s : String) : Option Float := readChars s.toList

end LetWhile.Number
