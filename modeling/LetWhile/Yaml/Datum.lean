import LetWhile.Yaml.Atom

/-! What nodes mean where nothing is asked of them. -/
namespace LetWhile.Yaml

/-- The keys of a table are all texts, or they are of any sort. -/
inductive Datum where
  | atom (a : Atom)
  | list (items : List Datum)
  | table (textKeys : Bool) (entries : List (Atom × Datum))

/-- Values by keys, no two of which are the same. -/
abbrev Table := List (Atom × Datum)

namespace Table

def has (t : Table) (key : Atom) : Bool := t.any fun (k, _) => k.isSame key

/-- Sets the value of a key. -/
def insert (t : Table) (key : Atom) (value : Datum) : Table :=
  t.filter (fun (k, _) => !k.isSame key) ++ [(key, value)]

end Table

namespace Datum

def atom? : Datum → Option Atom
  | .atom a => some a
  | _ => none

/-- The sort of a collection as messages name it. -/
def kind : Datum → String
  | .atom _ => "interface \x7b\x7d"
  | .list _ => "[]interface \x7b\x7d"
  | .table true _ => "map[string]interface \x7b\x7d"
  | .table false _ => "map[interface \x7b\x7d]interface \x7b\x7d"

/-- Parts of a collection in braces, behind its sort. -/
def braced (kind : String) (parts : List String) : String :=
  kind ++ "\x7b" ++ ", ".intercalate parts ++ "\x7d"

mutual

/-- A value as messages show it. Tables are in the order of their keys. -/
def shown : Datum → String
  | .atom a => a.shown
  | .list items => braced (kind (.list items)) (shownItems items)
  | .table textKeys entries =>
    let sorted := (shownEntries entries).mergeSort fun (a, _) (b, _) => !b.isLess a
    braced (kind (.table textKeys entries)) (sorted.map (·.2))

def shownItems : List Datum → List String
  | [] => []
  | d :: rest => shown d :: shownItems rest

/-- The entries behind their keys. -/
def shownEntries : List (Atom × Datum) → List (Atom × String)
  | [] => []
  | (key, d) :: rest => (key, key.shown ++ ":" ++ shown d) :: shownEntries rest

end

end Datum

end LetWhile.Yaml
