import LetWhile.Double

/-!
Decimal numbers and the fewest digits that name a double. A decimal names a double when it is at
least as near to it as to any other; a point half way between two doubles names the one with the
even code.
-/
namespace LetWhile

/-- The number `digits · 10 ^ exponent`. -/
structure Decimal where
  digits : Nat
  exponent : Int
  deriving DecidableEq, Repr

namespace Decimal

/-- How many decimal digits a number has; zero has one. -/
def length (n : Nat) : Nat := if n < 10 then 1 else length (n / 10) + 1

/-- `10 ^ e` as a fraction. -/
def powerOfTen (e : Int) : Nat × Nat := (Nat.pow 10 e.toNat, Nat.pow 10 (-e).toNat)

/-- The points that a double is named by, from `low` to `high` around `value`, in half units; the
ends belong to it if it is `closed`. -/
structure Interval where
  low : Nat
  value : Nat
  high : Nat
  closed : Bool

/-- The points half way to the neighbours of the finite double with this code are its ends. -/
def interval (code : Nat) : Interval :=
  let n := Double.magnitude code
  { low := n + Double.magnitude (code - 1)
    value := 2 * n
    high := n + Double.magnitude (code + 1)
    closed := code % 2 = 0 }

/-- Whether `point / scale` half units lie in the interval. -/
def Interval.contains (i : Interval) (scale point : Nat) : Bool :=
  if i.closed then i.low * scale ≤ point && point ≤ i.high * scale
  else i.low * scale < point && point < i.high * scale

/-- Of the two multiples of `10 ^ e` around the value, the one in the interval, the nearer one if
both are. -/
def candidate? (i : Interval) (e : Int) : Option Nat :=
  let (p, q) := powerOfTen e
  let num := i.value * q
  let den := 2 * p * Double.one
  let d := num / den
  match i.contains q (d * den), i.contains q ((d + 1) * den) with
  | true, true => some (roundHalfEven num den)
  | true, false => some d
  | false, true => some (d + 1)
  | false, false => none

/-- How many places the first digit of a number of units less than one stands behind the point. -/
def places : Nat → Nat → Nat
  | 0, _ => 1
  | fuel + 1, n => if Double.one ≤ n * 10 then 1 else places fuel (n * 10) + 1

/-- The exponent of the leading digit of a number of units that is not zero. -/
def leading (n : Nat) : Int :=
  if Double.one ≤ n then (length (n / Double.one) : Int) - 1 else -(places 323 n : Int)

/-- The same number without trailing zeros. -/
def trim (digits : Nat) (exponent : Int) : Decimal :=
  if digits ≠ 0 ∧ digits % 10 = 0 then trim (digits / 10) (exponent + 1) else ⟨digits, exponent⟩

/-- The decimal with the fewest digits that names the finite double with this code, the nearest of
those. Seventeen digits always do. -/
def shortest (code : Nat) : Decimal :=
  if code = 0 then ⟨0, 0⟩
  else
    let n := Double.magnitude code
    let i := interval code
    let top := leading n
    let found := (List.range 17).findSome? fun (k : Nat) =>
      let e := top - (k : Int)
      (candidate? i e).map (trim · e)
    found.getD ⟨n, 0⟩

/-- Whether the decimal is exactly the double with this code. -/
def isExact (d : Decimal) (code : Nat) : Bool :=
  let (p, q) := powerOfTen d.exponent
  d.digits * p * Double.one == Double.magnitude code * q

/-- The exponent of the leading digit. -/
def magnitudeOfTen (d : Decimal) : Int := (length d.digits : Int) + d.exponent - 1

/-- Plain digits with a point where it falls. -/
def positional (d : Decimal) : List Char :=
  let ds := Nat.toDigits 10 d.digits
  let point := (ds.length : Int) + d.exponent
  if point ≤ 0 then '0' :: '.' :: List.replicate (-point).toNat '0' ++ ds
  else if ds.length ≤ point.toNat then ds ++ List.replicate (point.toNat - ds.length) '0'
  else ds.take point.toNat ++ '.' :: ds.drop point.toNat

/-- One digit, a point before the others, then the exponent with its sign and two digits or more. -/
def scientific (d : Decimal) : List Char :=
  let ds := Nat.toDigits 10 d.digits
  let e := d.magnitudeOfTen
  let mantissa := match ds with
    | [] => []
    | [c] => [c]
    | c :: cs => c :: '.' :: cs
  let exponent := Nat.toDigits 10 e.natAbs
  mantissa ++ 'e' :: (if e < 0 then '-' else '+') ::
    (if exponent.length < 2 then '0' :: exponent else exponent)

end Decimal

/-- How numbers are written: which exponents of the leading digit still take plain digits, and the
words for what is no finite number. -/
structure NumberFormat where
  plain : Int → Bool
  nan : String
  infinity : String
  negativeInfinity : String

namespace NumberFormat

def finite (f : NumberFormat) (negative : Bool) (d : Decimal) : List Char :=
  let body := if f.plain d.magnitudeOfTen then d.positional else d.scientific
  if negative then '-' :: body else body

def render (f : NumberFormat) (x : Float) : String :=
  if x.isNaN then f.nan
  else
    let negative := Double.negative x
    let code := Double.code x
    if Double.infinity ≤ code then if negative then f.negativeInfinity else f.infinity
    else String.ofList (f.finite negative (Decimal.shortest code))

end NumberFormat

end LetWhile
