import LetWhile.Decimal.Read
import LetWhile.Text.Base64
import LetWhile.Yaml.Atom
import LetWhile.Yaml.Error

/-! What scalars mean, by their form and by their tag. -/
namespace LetWhile.Yaml.Atom

/-- The number that some digits make in a base of at most sixteen. -/
def digits? (base : Nat) (cs : List Char) : Option Nat :=
  cs.foldl (fun n c => do
    let d ← Number.digit? true c
    if d < base then return (← n) * base + d else none) (some 0)

/-- A whole number without a sign: in base two, eight or sixteen behind `0b`, `0o` or `0x`, in base
eight behind a zero, else in base ten. -/
def natural? : List Char → Option Nat
  | [] => none
  | '0' :: mark :: d :: rest =>
    match Number.lower mark with
    | 'b' => digits? 2 (d :: rest)
    | 'o' => digits? 8 (d :: rest)
    | 'x' => digits? 16 (d :: rest)
    | _ => digits? 8 (mark :: d :: rest)
  | '0' :: rest => digits? 8 rest
  | cs => digits? 10 cs

/-- A whole number behind a sign, if there is one, and that is of 64 bits, the sign among them. -/
def signed? (natural? : List Char → Option Nat) (cs : List Char) : Option Int := do
  let n ← match cs with
    | '-' :: rest => (natural? rest).map fun n => -(n : Int)
    | '+' :: rest => (natural? rest).map fun n => (n : Int)
    | cs => (natural? cs).map fun n => (n : Int)
  if -signBit ≤ n ∧ n < signBit then some n else none

/-- A whole number of 64 bits without a sign. -/
def unsigned? (natural? : List Char → Option Nat) (cs : List Char) : Option Int := do
  let n ← natural? cs
  if n < 2 * signBit then some (n : Int) else none

/-- Some digits in a base, of which there is one at least. -/
def inBase? (base : Nat) (cs : List Char) : Option Nat := if cs.isEmpty then none else digits? base cs

/-- A whole number. A sign may also stand behind `0b` or `0o`. -/
def whole? (cs : List Char) : Option Int :=
  signed? natural? cs <|> unsigned? natural? cs <|>
  match cs with
  | '0' :: 'b' :: rest => signed? (inBase? 2) rest
  | '0' :: 'o' :: rest => signed? (inBase? 8) rest
  | _ => none

def isExponent : List Char → Bool
  | [] => true
  | c :: rest =>
    let digits := match rest with
      | '+' :: rest | '-' :: rest => rest
      | rest => rest
    (c = 'e' || c = 'E') && !digits.isEmpty && digits.all Text.isAsciiDigit

/-- The form of a decimal number with digits before or behind its point. -/
def isDecimal (cs : List Char) : Bool :=
  let body := match cs with
    | '+' :: rest | '-' :: rest => rest
    | cs => cs
  let whole := body.takeWhile Text.isAsciiDigit
  match body.dropWhile Text.isAsciiDigit with
  | '.' :: rest =>
    !(whole.isEmpty && (rest.takeWhile Text.isAsciiDigit).isEmpty) &&
      isExponent (rest.dropWhile Text.isAsciiDigit)
  | rest => !whole.isEmpty && isExponent rest

/-- The words for values that are no finite numbers. -/
def word? (s : String) : Option Atom :=
  if s ∈ ["", "~", "null", "Null", "NULL"] then some .null
  else if s ∈ ["true", "True", "TRUE"] then some (.bool true)
  else if s ∈ ["false", "False", "FALSE"] then some (.bool false)
  else if s ∈ [".inf", ".Inf", ".INF", "+.inf", "+.Inf", "+.INF"] then
    some (.float (Double.ofCode false Double.infinity))
  else if s ∈ ["-.inf", "-.Inf", "-.INF"] then some (.float (Double.ofCode true Double.infinity))
  else if s ∈ [".nan", ".NaN", ".NAN"] then some (.float (Double.ofCode false Double.nan))
  else none

/-- A value that starts with a digit or a sign. Points in time are looked for only on demand. -/
def number? (times : Bool) (cs : List Char) : Option Atom :=
  let bare := cs.filter (· ≠ '_')
  (if times then (Timestamp.read? cs).map .time else none) <|>
  (whole? bare).map .whole <|>
  (if isDecimal bare then (Number.readChars bare).map .float else none)

/-- What a scalar without quotes means by its form. -/
def ofForm (times : Bool) (s : String) : Atom :=
  let found := word? s <|>
    match s.toList with
    | [] => none
    | c :: rest =>
      if c = '.' then (Number.readChars (c :: rest)).map .float
      else if Text.isAsciiDigit c || c = '+' || c = '-' then number? times (c :: rest)
      else none
  found.getD (.text s)

/-- The double nearest to a whole number. -/
def double (n : Int) : Float :=
  Double.ofCode (decide (n < 0)) (Double.nearest (n.natAbs * Double.one) 1)

/-- What a scalar with a tag means. One that does not have the form of its tag is an error; a whole
number may be a float. -/
def ofScalar (tag : Tag) (s : String) : Except Error Atom :=
  match tag with
  | .null | .bool | .int | .float | .timestamp =>
    let found := ofForm (tag = .timestamp) s
    let converted := match tag, found with
      | .float, .whole n => if n < signBit then .float (double n) else found
      | _, _ => found
    if converted.tag = tag then .ok converted else .error (.badTag found.tag.text s tag.text)
  | .binary =>
    match Text.base64? s.toList with
    | some bs => .ok (.ofBytes bs)
    | none => .error .badBinary
  | .str | .merge | .seq | .map | .other _ => .ok (.text s)

/-- The text that a scalar with a tag is read as where a text is asked for, unless it is null. -/
def textOf (tag : Tag) (s : String) : Except Error (Option Atom) := do
  match ← ofScalar tag s with
  | .null => return none
  | .text t => return some (.text t)
  | .bytes bs => return some (.bytes bs)
  | .bool _ | .whole _ | .float _ | .time _ => return some (.text s)

end LetWhile.Yaml.Atom

namespace LetWhile.Yaml

/-- What a scalar without quotes and without a tag is. -/
def Tag.ofPlain (s : String) : Tag := if s = "<<" then .merge else (Atom.ofForm true s).tag

end LetWhile.Yaml
