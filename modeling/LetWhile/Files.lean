namespace LetWhile

inductive File where
  | content (bytes : List UInt8)
  | directory

inductive OpenError where
  | missing | notDirectory | badPath
  deriving DecidableEq, Repr

namespace OpenError

def text : OpenError → String
  | .missing => "no such file or directory"
  | .notDirectory => "not a directory"
  | .badPath => "invalid argument"

def message (e : OpenError) (path : String) : String := s!"open {path}: {e.text}"

end OpenError

/-- What opening each path gives. -/
abbrev Files := String → Except OpenError File

/-- Files and directories by their paths, a later entry replacing an earlier one. The directories on
the way to an entry exist with it. -/
abbrev Tree := List (List String × File)

namespace Tree

/-- The steps of a path: what stands between its slashes. -/
def steps (path : String) : List String := (path.splitOn "/").filter (· ≠ "")

def ofEntries (entries : List (String × File)) : Tree :=
  entries.map fun (path, file) => (steps path, file)

/-- What is at a place. -/
def at? (t : Tree) (place : List String) : Option File :=
  match t.reverse.lookup place with
  | some file => some file
  | none =>
    if place = [] || t.any fun (steps, _) => place.isPrefixOf steps then some .directory else none

/-- Follows the steps of a path from a place. Only a directory can be stepped out of. -/
def walk (t : Tree) (place : List String) : List String → Except OpenError File
  | [] =>
    match t.at? place with
    | some file => .ok file
    | none => .error .missing
  | step :: rest =>
    match t.at? place with
    | none => .error .missing
    | some (.content _) => .error .notDirectory
    | some .directory =>
      if step = "." then t.walk place rest
      else if step = ".." then t.walk place.dropLast rest
      else t.walk (place ++ [step]) rest

/-- A path that ends in a slash names a directory. -/
def files (t : Tree) : Files := fun path =>
  if path.isEmpty then .error .missing
  else if path.toList.contains '\x00' then .error .badPath
  else if path.startsWith "/" then .error .missing
  else if path.endsWith "/" then t.walk [] (steps path ++ ["."])
  else t.walk [] (steps path)

end Tree

end LetWhile
