import LetWhile.Yaml.Error

namespace LetWhile.Yaml

/-- The parts of a YAML text. Blocks have no closing marks of their own: where a block starts and ends
is read off the indentation. -/
inductive Part where
  | streamStart | streamEnd
  | version (major minor : Nat)
  /-- From here on a tag with this handle stands for one that starts with `uri`. -/
  | handle (handle uri : String)
  | documentStart | documentEnd
  | blockSequence | blockMapping | blockEnd
  | flowSequence | flowSequenceEnd | flowMapping | flowMappingEnd
  | entry | comma | key | value
  | ref (name : String)
  | anchor (name : String)
  | tag (handle suffix : String)
  | scalar (plain : Bool) (text : String)
  deriving DecidableEq, Repr

structure Token where
  start : Mark
  part : Part
  deriving DecidableEq, Repr

end LetWhile.Yaml
