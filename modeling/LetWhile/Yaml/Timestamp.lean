import LetWhile.Text.Digit

/-!
Points in time: a date as `2001-12-14`, or a date and a time as `2001-12-14 21:59:43.10` or
`2001-12-14T21:59:43.10-05:00`, where all but the year may have one digit.
-/
namespace LetWhile.Yaml

/-- A time zone, by its distance from universal time unless it is that itself. -/
inductive Zone where
  | utc
  | distance (minutes : Int)
  deriving DecidableEq, Repr

structure Timestamp where
  year : Nat
  month : Nat
  day : Nat
  hour : Nat := 0
  minute : Nat := 0
  second : Nat := 0
  nanosecond : Nat := 0
  zone : Zone := .utc
  deriving DecidableEq, Repr

namespace Timestamp

def value (c : Char) : Nat := c.toNat - '0'.toNat

/-- The number that some digits make. -/
def number (digits : List Char) : Nat := digits.foldl (fun n c => n * 10 + value c) 0

/-- A number of one or two digits. -/
def pair? : List Char → Option (Nat × List Char)
  | c :: d :: rest =>
    if !Text.isAsciiDigit c then none
    else if Text.isAsciiDigit d then some (value c * 10 + value d, rest)
    else some (value c, d :: rest)
  | [c] => if Text.isAsciiDigit c then some (value c, []) else none
  | [] => none

/-- A number of one or two digits that is at most `most`. -/
def upTo? (most : Nat) (cs : List Char) : Option (Nat × List Char) := do
  let (n, rest) ← pair? cs
  if n ≤ most then some (n, rest) else none

def char? (c : Char) : List Char → Option (List Char)
  | d :: rest => if d = c then some rest else none
  | [] => none

def isLeap (year : Nat) : Bool := year % 4 = 0 && (year % 100 ≠ 0 || year % 400 = 0)

def daysIn (year month : Nat) : Nat :=
  if month = 2 then (if isLeap year then 29 else 28)
  else if month ∈ [4, 6, 9, 11] then 30
  else 31

/-- A date at the front of a text, the year with four digits; what follows it. -/
def date? (cs : List Char) : Option (Timestamp × List Char) := do
  let digits := cs.takeWhile Text.isAsciiDigit
  if digits.length ≠ 4 then none
  let year := number digits
  let rest ← char? '-' (cs.drop 4)
  let (month, rest) ← upTo? 12 rest
  let rest ← char? '-' rest
  let (day, rest) ← pair? rest
  if 1 ≤ month && 1 ≤ day && day ≤ daysIn year month then some ({ year, month, day }, rest) else none

/-- A part of a second, if there is one, in nanoseconds; what follows it. Smaller parts are dropped. -/
def fraction (cs : List Char) : Nat × List Char :=
  let digits := (cs.drop 1).takeWhile Text.isAsciiDigit
  if cs.head?.any (fun c => c = '.' || c = ',') && !digits.isEmpty then
    (number ((digits ++ List.replicate 9 '0').take 9), cs.drop (1 + digits.length))
  else (0, cs)

/-- A time of day at the front of a text; what follows it. -/
def time? (date : Timestamp) (cs : List Char) : Option (Timestamp × List Char) := do
  let (hour, rest) ← upTo? 23 cs
  let rest ← char? ':' rest
  let (minute, rest) ← upTo? 59 rest
  let rest ← char? ':' rest
  let (second, rest) ← upTo? 59 rest
  let (nanosecond, rest) := fraction rest
  return ({ date with hour, minute, second, nanosecond }, rest)

/-- A time zone: `Z`, or a distance with a sign, in hours and minutes of two digits each. -/
def zone? : List Char → Option Zone
  | ['Z'] => some .utc
  | [sign, a, b, ':', c, d] =>
    let hours := number [a, b]
    let minutes := number [c, d]
    let distance : Int := hours * 60 + minutes
    if (sign = '+' || sign = '-') && [a, b, c, d].all Text.isAsciiDigit && hours ≤ 24 && minutes ≤ 60 then
      some (.distance (if sign = '-' then -distance else distance))
    else none
  | _ => none

/-- The point in time that a text is. -/
def read? (cs : List Char) : Option Timestamp := do
  let (date, rest) ← date? cs
  match rest with
  | [] => return date
  | c :: rest =>
    if c = 'T' || c = 't' then
      let (t, rest) ← time? date rest
      return { t with zone := ← zone? rest }
    else if c = ' ' then
      let (t, rest) ← time? date (rest.dropWhile (· = ' '))
      if rest.isEmpty then some t else none
    else none

end Timestamp

end LetWhile.Yaml
