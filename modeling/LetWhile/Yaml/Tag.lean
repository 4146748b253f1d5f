namespace LetWhile.Yaml

/-- What a node is. -/
inductive Tag where
  | null | bool | int | float | timestamp | str | binary | merge | seq | map
  | other (text : String)
  deriving DecidableEq, Repr

namespace Tag

def text : Tag → String
  | .null => "!!null"
  | .bool => "!!bool"
  | .int => "!!int"
  | .float => "!!float"
  | .timestamp => "!!timestamp"
  | .str => "!!str"
  | .binary => "!!binary"
  | .merge => "!!merge"
  | .seq => "!!seq"
  | .map => "!!map"
  | .other text => text

/-- The tags of YAML itself. -/
def known : List Tag := [null, bool, int, float, timestamp, str, binary, merge, seq, map]

/-- What the tags of YAML itself start with when they are written in full. -/
def family : List Char := "tag:yaml.org,2002:".toList

def ofText (full : String) : Tag :=
  let cs := full.toList
  let short :=
    if family.isPrefixOf cs then "!!" ++ String.ofList (cs.drop family.length) else full
  (known.find? (·.text = short)).getD (.other short)

end Tag

end LetWhile.Yaml
