import LetWhile.Text.Quoted
import LetWhile.Yaml.Atom.Read
import LetWhile.Yaml.Datum
import LetWhile.Yaml.Document

/-!
Reading a document as a record of texts. The entries of a mapping set the fields that they name. A
mapping may take over the entries of others, which it names behind the key `<<`: for the keys that it
does not have itself, and from the first of them that has the key. To tell these keys apart they are
read for what they mean; reading breaks off if one of them is a collection. Nodes of the wrong sort
are gathered and reported together; what breaks a rule of YAML is reported alone.
-/
namespace LetWhile.Yaml

/-- The record that is asked for. -/
structure Record where
  name : String
  fields : List String

/-- What a mapping is read into: a record, where the values of other keys than its fields are not
looked at, or a table. -/
inductive Goal where
  | record (r : Record)
  | table (textKeys : Bool)

/-- Whether keys are read as texts, whatever they mean. -/
def Goal.hasTextKeys : Goal → Bool
  | .record _ => true
  | .table textKeys => textKeys

/-- What has been done so far. -/
structure Progress where
  problems : List String := []
  /-- How many nodes have been looked at, and how many of them through an alias. -/
  looks : Nat := 0
  aliasLooks : Nat := 0
  /-- The keys that entries taken over cannot set any more, where entries are taken over. -/
  taken : Option (List Atom) := none

abbrev Decode := StateT Progress (Except Error)

/-- Looking at nodes through aliases must not become nearly all that is done: after a thousand looks
99 of 100 may be of this kind, and from 400000 to 4000000 looks this falls to 10 of 100. -/
def Progress.isExcessive (p : Progress) : Bool :=
  let allowed :=
    if p.looks ≤ 400000 then 99 * 3600000
    else if 4000000 ≤ p.looks then 10 * 3600000
    else 99 * 3600000 - 89 * (p.looks - 400000)
  decide (100 < p.aliasLooks) && decide (1000 < p.looks) &&
    decide (allowed * p.looks < p.aliasLooks * 100 * 3600000)

namespace Decode

def problem (text : String) : Decode Unit :=
  modify fun p => { p with problems := p.problems ++ [text] }

/-- Counts a look at a node. `path` are the places of the aliases on the way to it. -/
def look (path : List Nat) : Decode Unit := do
  let p ← get
  let p := { p with
    looks := p.looks + 1
    aliasLooks := if path.isEmpty then p.aliasLooks else p.aliasLooks + 1 }
  set p
  if p.isExcessive then throw .aliases

/-- Does something for which no keys are taken. -/
def apart {α : Type} (act : Decode α) : Decode α := do
  let taken := (← get).taken
  modify ({ · with taken := none })
  let a ← act
  modify ({ · with taken })
  return a

/-- Takes a key where entries are taken over. Gives whether the key is still to be had. -/
def claim (key : Datum) : Decode Bool := do
  match (← get).taken, key with
  | none, _ => return true
  | some taken, .atom a =>
    if taken.any a.isSame then return false
    modify ({ · with taken := some (a :: taken) })
    return true
  | some _, collection => throw (.unhashable collection.kind)

/-- The start of a scalar as messages show it. -/
def excerpt (text : String) : String :=
  if 10 < text.utf8ByteSize then
    String.ofList (Text.decode (text.toUTF8.toList.take 7)) ++ "..."
  else text

/-- A node is not what is asked for. -/
def misfit (n : Node) (target : String) : Decode Unit :=
  let report (line : Nat) (tag : Tag) (text : String) :=
    let shown := if tag = .seq || tag = .map then text else s!" \x60{excerpt text}\x60"
    problem s!"line {line}: cannot unmarshal {tag.text}{shown} into {target}"
  match n with
  | .scalar line tag text => report line tag text
  | .sequence line tag _ | .mapping line tag _ => report line tag ""
  | .ref _ _ _ _ => return

/-- The messages for every two entries that have the same key. -/
def repeated : List (Node × Node) → List String
  | [] => []
  | (k, _) :: rest =>
    (rest.filter fun (again, _) => k.sameKey again).map (fun (again, _) =>
      s!"line {again.line}: mapping key {Text.quote again.keyText} already defined at line {k.line}") ++
    repeated rest

/-- Whether no two entries have the same key. -/
def unique (entries : List (Node × Node)) : Decode Bool := do
  let found := repeated entries
  found.forM problem
  return found.isEmpty

/-- The node that an alias stands for, if that is no part of itself. -/
def follow (d : Document) (path : List Nat) (name : String) (target place : Nat) : Decode Node :=
  match path.contains place, d.anchored.lookup target with
  | false, some n => return n
  | _, _ => throw (.cyclicAnchor name)

/-- The text of a node that is no alias. A null has none, and a collection is a misfit. -/
def ownText (n : Node) : Decode (Option Atom) := do
  match n with
  | .scalar _ tag text => Atom.textOf tag text
  | .sequence _ _ _ => misfit n "string"; return none
  | .mapping _ _ entries =>
    if ← unique entries then misfit n "string"
    return none
  | .ref _ _ _ _ => return none

def text (d : Document) (path : List Nat) (n : Node) : Decode (Option Atom) := do
  look path
  match n with
  | .ref _ name target place =>
    let n ← follow d path name target place
    look (place :: path)
    ownText n
  | n => ownText n

/-- Whether an entry takes over others. -/
def isMerge : Node → Bool
  | .scalar _ tag text => tag = .merge && text = "<<"
  | _ => false

/-- The node whose entries are taken over, the last one that is named. -/
def merged? : List (Node × Node) → Option Node
  | [] => none
  | (k, v) :: rest =>
    match merged? rest with
    | some n => some n
    | none => if isMerge k then some v else none

theorem sizeOf_merged? {entries : List (Node × Node)} {n : Node} (h : merged? entries = some n) :
    sizeOf n < sizeOf entries := by
  induction entries with
  | nil => simp [merged?] at h
  | cons e rest ih =>
    obtain ⟨k, v⟩ := e
    rw [merged?] at h
    simp only [List.cons.sizeOf_spec, Prod.mk.sizeOf_spec]
    split at h
    · next heq =>
      have := ih (heq.trans h)
      omega
    · split at h
      · obtain rfl := Option.some.inj h
        omega
      · simp at h

/-- Whether the keys of a mapping all look like texts. -/
def hasTextKeys (d : Document) (entries : List (Node × Node)) : Bool :=
  entries.all fun (k, _) => d.tag? k = some .str || d.tag? k = some .merge

/-- Sets a field of a record, which the entries of one mapping can do only once. -/
def field (d : Document) (r : Record) (path : List Nat) (t : Table) (line : Nat) (key : Atom) (v : Node) :
    Decode Table := do
  match key.text? with
  | some name =>
    if !r.fields.contains name then return t
    if t.has key then
      problem s!"line {line}: field {name} already set in type {r.name}"
      return t
    return t.insert key (.atom ((← text d path v).getD .null))
  | none => return t

mutual

/-- What a node means, unless keys are repeated in it. Up to `depth` aliases can be followed inside of
one another. -/
def datum (d : Document) (depth : Nat) (path : List Nat) (n : Node) : Decode (Option Datum) := do
  look path
  match n with
  | .ref _ name target place =>
    let n ← follow d path name target place
    match depth with
    | 0 => throw (.cyclicAnchor name)
    | depth + 1 => datum d depth (place :: path) n
  | .scalar _ tag text => return some (.atom (← Atom.ofScalar tag text))
  | .sequence _ _ items => return some (.list (← data d depth path items))
  | .mapping _ _ es =>
    if !(← unique es) then return none
    let textKeys := hasTextKeys d es
    return some (.table textKeys (← contents d (.table textKeys) depth path [] es))
termination_by (depth, sizeOf n, 0)

def data (d : Document) (depth : Nat) (path : List Nat) : List Node → Decode (List Datum)
  | [] => return []
  | n :: rest => return (← datum d depth path n).toList ++ (← data d depth path rest)
termination_by items => (depth, sizeOf items, 0)

/-- Sets what some entries say, and then what is taken over for them. -/
def contents (d : Document) (goal : Goal) (depth : Nat) (path : List Nat) (t : Table)
    (es : List (Node × Node)) : Decode Table := do
  let t ← entries d goal depth path t es
  match h : merged? es with
  | none => return t
  | some m =>
    have := sizeOf_merged? h
    let outermost := (← get).taken.isNone
    if outermost then
      modify ({ · with taken := some [] })
      take d depth path es
    let t ← merge d goal depth path t m
    if outermost then modify ({ · with taken := none })
    return t
termination_by (depth, sizeOf es, 1)

/-- Sets what some entries say. -/
def entries (d : Document) (goal : Goal) (depth : Nat) (path : List Nat) (t : Table) :
    List (Node × Node) → Decode Table
  | [] => return t
  | (k, v) :: rest => do
    if isMerge k then return ← entries d goal depth path t rest
    let read := if goal.hasTextKeys then Option.map .atom <$> text d path k else datum d depth path k
    let some key ← apart read | entries d goal depth path t rest
    if !(← claim key) then return ← entries d goal depth path t rest
    match goal, key with
    | .record r, .atom key => entries d goal depth path (← field d r path t k.line key v) rest
    | .table _, .atom key =>
      let t := match ← apart (datum d depth path v) with
        | some value => t.insert key value
        | none => if d.tag? v = some .null && !t.has key then t.insert key (.atom .null) else t
      entries d goal depth path t rest
    | _, collection => throw (.badKey collection.shown)
termination_by es => (depth, sizeOf es, 0)

/-- Takes the keys that entries have, so that no entry taken over can set them. -/
def take (d : Document) (depth : Nat) (path : List Nat) : List (Node × Node) → Decode Unit
  | [] => return
  | (k, _) :: rest => do
    if let some key ← datum d depth path k then
      let _ ← claim key
    take d depth path rest
termination_by es => (depth, sizeOf es, 0)

/-- Sets what is taken over from a node: a mapping, or several in a sequence. -/
def merge (d : Document) (goal : Goal) (depth : Nat) (path : List Nat) (t : Table) (n : Node) :
    Decode Table :=
  match n with
  | .sequence _ _ items => mergeItems d goal depth path t items
  | n => mergeMapping d goal depth path t n
termination_by (depth, sizeOf n, 2)

def mergeItems (d : Document) (goal : Goal) (depth : Nat) (path : List Nat) (t : Table) :
    List Node → Decode Table
  | [] => return t
  | n :: rest => do
    let t ← mergeMapping d goal depth path t n
    mergeItems d goal depth path t rest
termination_by items => (depth, sizeOf items, 0)

def mergeMapping (d : Document) (goal : Goal) (depth : Nat) (path : List Nat) (t : Table) (n : Node) :
    Decode Table := do
  if (d.target? n).all Node.isMapping then mapping d goal depth path t n else throw Error.badMerge
termination_by (depth, sizeOf n, 1)

/-- Sets what a mapping says, unless keys are repeated in it. -/
def mapping (d : Document) (goal : Goal) (depth : Nat) (path : List Nat) (t : Table) (n : Node) :
    Decode Table := do
  look path
  match n with
  | .ref _ name target place =>
    let n ← follow d path name target place
    match depth with
    | 0 => throw (.cyclicAnchor name)
    | depth + 1 => mapping d goal depth (place :: path) t n
  | .mapping _ _ es => if ← unique es then contents d goal depth path t es else return t
  | .scalar _ _ _ | .sequence _ _ _ => return t
termination_by (depth, sizeOf n, 0)

end

/-- The fields that a document sets. -/
def document (d : Document) (r : Record) : Decode Table := do
  match d.root with
  | .scalar _ tag text =>
    if (← Atom.textOf tag text).isSome then misfit d.root r.name
    return []
  | .sequence _ _ _ => misfit d.root r.name; return []
  | n => mapping d (.record r) (d.aliases + 1) [] [] n

end Decode

namespace Document

/-- The fields of a record that a document sets, and their texts. -/
def fields (d : Document) (r : Record) : Except Error (List (String × String)) := do
  let (t, p) ← (Decode.document d r).run { looks := 1 }
  if !p.problems.isEmpty then throw (.unfit p.problems)
  return t.filterMap fun (key, value) => do return (← key.text?, ← (← value.atom?).text?)

end Document

end LetWhile.Yaml
