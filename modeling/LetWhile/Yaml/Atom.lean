import LetWhile.Decimal
import LetWhile.Text.Quoted
import LetWhile.Yaml.Tag
import LetWhile.Yaml.Timestamp

/-! Values without parts, which are what scalars mean. -/
namespace LetWhile.Yaml

/-- Whole numbers have 64 bits, with a sign or without. Bytes are a value of their own only where they
are no text. -/
inductive Atom where
  | null
  | bool (b : Bool)
  | whole (n : Int)
  | float (x : Float)
  | time (t : Timestamp)
  | text (s : String)
  | bytes (bs : List UInt8)
  deriving DecidableEq

namespace Timestamp

def monthNames : List String := [
  "January", "February", "March", "April", "May", "June", "July", "August", "September", "October",
  "November", "December"]

/-- A point in time as messages show it. -/
def shown (t : Timestamp) : String :=
  let zone := match t.zone with
    | .utc => "time.UTC"
    | .distance 0 => "time.Local"
    | .distance _ => "time.Location(\"\")"
  let month := "time." ++ monthNames.getD (t.month - 1) ""
  let clock := [t.day, t.hour, t.minute, t.second, t.nanosecond].map toString
  let parts := toString t.year :: month :: clock ++ [zone]
  "time.Date(" ++ ", ".intercalate parts ++ ")"

end Timestamp

namespace Atom

def ofBytes (bs : List UInt8) : Atom :=
  let s := String.ofList (Text.decode bs)
  if s.toUTF8.toList = bs then .text s else .bytes bs

def tag : Atom → Tag
  | .null => .null
  | .bool _ => .bool
  | .whole _ => .int
  | .float _ => .float
  | .time _ => .timestamp
  | .text _ | .bytes _ => .str

/-- The text of a value that is one. -/
def text? : Atom → Option String
  | .text s => some s
  | .bytes bs => some (String.ofList (Text.decode bs))
  | _ => none

/-- Whether two values are the same key. -/
def isSame : Atom → Atom → Bool
  | .float x, .float y => x == y
  | a, b => a = b

/-- The least whole number that needs all 64 bits. -/
def signBit : Int := 0x8000000000000000

/-- Values of different sorts are in the order of their ranks. -/
def rank : Atom → Nat
  | .null => 0
  | .bool _ => 1
  | .float _ => 2
  | .whole n => if n < signBit then 3 else 5
  | .text _ | .bytes _ => 4
  | .time _ => 6

/-- What texts are ordered by. -/
def utf8 : Atom → List UInt8
  | .text s => s.toUTF8.toList
  | .bytes bs => bs
  | _ => []

/-- What points in time are ordered by: first the part of the second. -/
def clock (t : Timestamp) : List Nat :=
  [t.nanosecond, t.year, t.month, t.day, t.hour, t.minute, t.second]

/-- The order of keys in messages. -/
def isLess (a b : Atom) : Bool :=
  match a, b with
  | .bool x, .bool y => !x && y
  | .whole m, .whole n => decide (m < n)
  | .float x, .float y => x.isNaN || decide (x < y)
  | .time s, .time t => decide (clock s < clock t)
  | a, b => if a.rank = b.rank then decide (a.utf8 < b.utf8) else decide (a.rank < b.rank)

/-- Floats in messages: plain digits for middling exponents. -/
def number : NumberFormat where
  plain := fun e => decide (-4 ≤ e) && decide (e < 6)
  nan := "NaN"
  infinity := "+Inf"
  negativeInfinity := "-Inf"

/-- A value as messages show it inside of others. -/
def shown : Atom → String
  | .null => "interface \x7b\x7d(nil)"
  | .bool b => toString b
  | .whole n =>
    if n < signBit then toString n else "0x" ++ String.ofList (Nat.toDigits 16 n.toNat)
  | .float x => number.render x
  | .time t => t.shown
  | .text s => Text.quote s
  | .bytes bs => Text.quoteBytes bs

end Atom

end LetWhile.Yaml
