/-!
The doubles as exact numbers. A finite double is its sign and a magnitude, a natural number of units
of 2⁻¹⁰⁷⁴, the least positive double. The bits below the sign are its code: codes count the
magnitudes in increasing order, and the code after the last finite one is infinity.
-/
namespace LetWhile

/-- The quotient rounded to the nearest whole number, a half to the even one. -/
def roundHalfEven (num den : Nat) : Nat :=
  let q := num / den
  let r := num % den
  if 2 * r < den then q else if den < 2 * r then q + 1 else q + q % 2

namespace Double

/-- How many codes share an exponent: two to the power 52. -/
def binade : Nat := 0x10000000000000

/-- The weight of the sign among the bits. -/
def signBit : Nat := 0x8000000000000000

/-- How many units make one. -/
def one : Nat := Nat.pow 2 1074

def infinity : Nat := 0x7FF * binade

/-- The magnitude with the given code. -/
def magnitude (code : Nat) : Nat :=
  let field := code / binade
  let fraction := code % binade
  if field = 0 then fraction else (binade + fraction) * Nat.pow 2 (field - 1)

/-- The code of the double nearest to `num / den` units, ties going to the even code. It is
`infinity` or more when no finite double is near. -/
def nearest (num den : Nat) : Nat :=
  let shift := (num / den).log2 - 52
  shift * binade + roundHalfEven num (den * Nat.pow 2 shift)

def code (x : Float) : Nat := x.toBits.toNat % signBit

def negative (x : Float) : Bool := decide (signBit ≤ x.toBits.toNat)

def ofCode (negative : Bool) (code : Nat) : Float :=
  Float.ofBits (UInt64.ofNat (if negative then signBit + code else code))

/-- The code of what is no number. -/
def nan : Nat := infinity + binade / 2

end Double

end LetWhile
