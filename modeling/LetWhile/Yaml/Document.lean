import LetWhile.Yaml.Tag

namespace LetWhile.Yaml

/-- A node knows the line on which it starts, counted from one. An alias is a `ref`: it stands for the
node that has the number `target`, and its `place` tells it from other aliases of the same name. -/
inductive Node where
  | scalar (line : Nat) (tag : Tag) (text : String)
  | sequence (line : Nat) (tag : Tag) (items : List Node)
  | mapping (line : Nat) (tag : Tag) (entries : List (Node × Node))
  | ref (line : Nat) (name : String) (target place : Nat)

namespace Node

def line : Node → Nat
  | .scalar line _ _ | .sequence line _ _ | .mapping line _ _ | .ref line _ _ _ => line

/-- The tag of a node that is no alias. -/
def tag? : Node → Option Tag
  | .scalar _ tag _ | .sequence _ tag _ | .mapping _ tag _ => some tag
  | .ref _ _ _ _ => none

/-- The text by which a node differs from others of its sort as a key. -/
def keyText : Node → String
  | .scalar _ _ text => text
  | .ref _ name _ _ => name
  | .sequence _ _ _ | .mapping _ _ _ => ""

/-- Whether two nodes are the same key. -/
def sameKey (a b : Node) : Bool :=
  match a, b with
  | .scalar _ _ s, .scalar _ _ t => s = t
  | .ref _ s _ _, .ref _ t _ _ => s = t
  | .sequence _ _ _, .sequence _ _ _ => true
  | .mapping _ _ _, .mapping _ _ _ => true
  | _, _ => false

def isMapping : Node → Bool
  | .mapping _ _ _ => true
  | _ => false

end Node

/-- A node with the nodes that aliases in it stand for, by their numbers. -/
structure Document where
  root : Node
  anchored : List (Nat × Node)
  /-- How many aliases there are. -/
  aliases : Nat

namespace Document

/-- The node itself, or what it stands for as an alias. -/
def target? (d : Document) : Node → Option Node
  | .ref _ _ target _ => d.anchored.lookup target
  | n => some n

def tag? (d : Document) (n : Node) : Option Tag := (d.target? n).bind Node.tag?

end Document

end LetWhile.Yaml
