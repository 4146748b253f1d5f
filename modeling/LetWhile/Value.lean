import LetWhile.Decimal

namespace LetWhile

/-- What a program computes with. The two kinds are never converted into one another. -/
inductive Value where
  | number (x : Float)
  | bool (b : Bool)
  deriving DecidableEq

/-- Printed numbers have plain digits whatever their size. -/
def printed : NumberFormat where
  plain := fun _ => true
  nan := "NaN"
  infinity := "+Inf"
  negativeInfinity := "-Inf"

namespace Value

inductive Variant where
  | number | boolean
  deriving DecidableEq, Repr

def Variant.name : Variant → String
  | .number => "number"
  | .boolean => "boolean"

def variant : Value → Variant
  | .number _ => .number
  | .bool _ => .boolean

def text : Value → String
  | .number x => printed.render x
  | .bool true => "true"
  | .bool false => "false"

end Value

end LetWhile
