import LetWhile.Value
import LetWhile.Yaml.Order
import LetWhile.Yaml.Style

/-! Bindings as a YAML mapping. -/
namespace LetWhile.Yaml

/-- Numbers take an exponent below 10⁻⁴ and from 10⁶ on. -/
def number : NumberFormat where
  plain := fun e => decide (-4 ≤ e) && decide (e < 6)
  nan := ".nan"
  infinity := ".inf"
  negativeInfinity := "-.inf"

def value : Value → String
  | .number x => number.render x
  | .bool b => (Value.bool b).text

/-- The longest key that may share a line with its value, in bytes. -/
def maxSimpleKey : Nat := 128

/-- A key and its value on one line, or on lines of their own if the key is long or has line breaks. -/
def entry (name : String) (v : Value) : String :=
  let key := Style.write name
  if name.utf8ByteSize ≤ maxSimpleKey && !name.toList.any isBreak then s!"{key}: {value v}\n"
  else
    let ending := if key.toList.getLast?.any isBreak then "" else "\n"
    s!"? {key}{ending}: {value v}\n"

def mapping (bindings : List (String × Value)) : String :=
  if bindings.isEmpty then "\x7b\x7d\n"
  else
    let sorted := bindings.mergeSort fun a b => !keyLess [] b.1.toList a.1.toList
    String.join (sorted.map fun (name, v) => entry name v)

/-- The size of the buffer that texts go through, in bytes. -/
def bufferSize : Nat := 128

/-- The buffer is emptied in front of a character that does not find so many bytes and one more. -/
def spare : Nat := 5

/-- The pieces in which a text leaves the buffer, which holds some characters already, the latest
first, and their size. -/
def piecesFrom (held : List Char) (size : Nat) : List Char → List String
  | [] => if held.isEmpty then [] else [String.ofList held.reverse]
  | c :: rest =>
    if bufferSize ≤ size + spare then String.ofList held.reverse :: piecesFrom [c] c.utf8Size rest
    else piecesFrom (c :: held) (size + c.utf8Size) rest

/-- The writes that a text makes. -/
def pieces (text : String) : List String := piecesFrom [] 0 text.toList

end LetWhile.Yaml
