import LetWhile.Yaml.Atom.Read
import LetWhile.Yaml.Document
import LetWhile.Yaml.Token.Feed

/-! Reading the first document of a text. -/
namespace LetWhile.Yaml

/-- What is known while a document is read. -/
structure Draft where
  feed : Feed
  /-- What the handles of tags stand for. -/
  handles : List (String × String) := []
  /-- The numbers of the nodes with a name, the last first. -/
  names : List (String × Nat) := []
  /-- The nodes with a name that are complete. -/
  anchored : List (Nat × Node) := []
  aliases : Nat := 0

abbrev Compose := StateT Draft (Except Error)

instance : MonadLift Lex Compose where
  monadLift lex := fun draft => do
    let (a, feed) ← lex draft.feed
    return (a, { draft with feed })

/-- The anchor and the tag before a node. -/
structure Properties where
  start : Mark
  anchor : Option String := none
  tag : Option Tag := none

namespace Compose

def peek : Compose Token := Lex.peek

def advance : Compose Unit := Lex.advance

/-- What has started at `start` cannot go on with a token. -/
def fail {α : Type} (start : Mark) (t : Token) (p : Problem) : Compose α :=
  throw (.token start t.start p)

/-- An empty scalar where a node is left out. -/
def empty (place : Mark) : Node := .scalar (place.line + 1) .null ""

/-- The tag that a handle and a suffix stand for. A lone exclamation mark is no tag. -/
def resolve (start : Mark) (t : Token) (handle suffix : String) : Compose (Option Tag) := do
  let text ←
    if handle.isEmpty then pure suffix
    else match (← get).handles.lookup handle with
      | some uri => pure (uri ++ suffix)
      | none => fail start t .handleUnknown
  return if text = "!" then none else some (.ofText text)

/-- The anchor and the tag of a node, in either order. The second value tells whether there is
anything. -/
def properties : Compose (Properties × Bool) := do
  let t ← peek
  match t.part with
  | .anchor name =>
    advance
    let u ← peek
    match u.part with
    | .tag handle suffix =>
      advance
      let _ ← peek
      return (⟨t.start, name, ← resolve t.start u handle suffix⟩, true)
    | _ => return (⟨t.start, name, none⟩, true)
  | .tag handle suffix =>
    advance
    let u ← peek
    let anchor ← match u.part with
      | .anchor name => do
        advance
        let _ ← peek
        pure (some name)
      | _ => pure none
    return (⟨t.start, anchor, ← resolve t.start t handle suffix⟩, true)
  | _ => return (⟨t.start, none, none⟩, false)

/-- Gives a number to a node with a name. From here on the name stands for it. -/
def register (anchor : Option String) : Compose (Option Nat) := do
  match anchor with
  | none => return none
  | some name =>
    let d ← get
    let number := d.names.length
    set { d with names := (name, number) :: d.names }
    return some number

/-- Keeps a complete node under its number. -/
def keep (number : Option Nat) (node : Node) : Compose Node := do
  if let some n := number then
    modify fun d => { d with anchored := (n, node) :: d.anchored }
  return node

def reference (t : Token) (name : String) : Compose Node := do
  let d ← get
  match d.names.lookup name with
  | none => throw (.unknownAnchor name)
  | some target =>
    set { d with aliases := d.aliases + 1 }
    return .ref (t.start.line + 1) name target t.start.index

/-- The tag of a scalar: the one it is given, else a text if it is quoted, else what its form says. -/
def scalarTag (given : Option Tag) (plain : Bool) (text : String) : Tag :=
  given.getD (if plain then .ofPlain text else .str)

mutual

/-- A node. A block can only start where one is allowed; where `dashes`, the items of a sequence need
no indentation. -/
def node (fuel : Nat) (block dashes : Bool) : Compose Node :=
  match fuel with
  | 0 => throw (.broken 0 .content)
  | fuel + 1 => do
    let t ← peek
    if let .ref name := t.part then
      advance
      return ← reference t name
    let (p, given) ← properties
    let line := p.start.line + 1
    let t ← peek
    let number ← register p.anchor
    match t.part with
    | .scalar plain text =>
      advance
      keep number (.scalar line (scalarTag p.tag plain text) text)
    | .flowSequence =>
      advance
      keep number (.sequence line (p.tag.getD .seq) (← flowItems fuel t.start true []))
    | .flowMapping =>
      advance
      keep number (.mapping line (p.tag.getD .map) (← flowEntries fuel t.start true []))
    | part =>
      if part = .entry && dashes then
        keep number (.sequence line (p.tag.getD .seq) (← dashedItems fuel []))
      else if part = .blockSequence && block then
        advance
        keep number (.sequence line (p.tag.getD .seq) (← blockItems fuel t.start []))
      else if part = .blockMapping && block then
        advance
        keep number (.mapping line (p.tag.getD .map) (← blockEntries fuel t.start []))
      else if given then keep number (.scalar line (scalarTag p.tag true "") "")
      else fail p.start t .content

/-- A node in a block, or none before one of the parts `ends`. -/
def optional (fuel : Nat) (dashes : Bool) (place : Mark) (ends : List Part) : Compose Node :=
  match fuel with
  | 0 => throw (.broken 0 .content)
  | fuel + 1 => do
    if (← peek).part ∈ ends then return empty place else node fuel true dashes

/-- The items of an indented sequence, `done` being those already read, the last first. -/
def blockItems (fuel : Nat) (start : Mark) (done : List Node) : Compose (List Node) :=
  match fuel with
  | 0 => throw (.broken 0 .content)
  | fuel + 1 => do
    let t ← peek
    match t.part with
    | .entry =>
      advance
      blockItems fuel start ((← optional fuel false t.start [.entry, .blockEnd]) :: done)
    | .blockEnd => advance; return done.reverse
    | _ => fail start t .entry

/-- The items of a sequence that is not indented. -/
def dashedItems (fuel : Nat) (done : List Node) : Compose (List Node) :=
  match fuel with
  | 0 => throw (.broken 0 .content)
  | fuel + 1 => do
    let t ← peek
    match t.part with
    | .entry =>
      advance
      dashedItems fuel
        ((← optional fuel false t.start [.entry, .key, .value, .blockEnd]) :: done)
    | _ => return done.reverse

/-- The entries of an indented mapping. -/
def blockEntries (fuel : Nat) (start : Mark) (done : List (Node × Node)) :
    Compose (List (Node × Node)) :=
  match fuel with
  | 0 => throw (.broken 0 .content)
  | fuel + 1 => do
    let t ← peek
    match t.part with
    | .key =>
      advance
      let ends := [.key, .value, .blockEnd]
      let key ← optional fuel true t.start ends
      let v ← peek
      let value ← match v.part with
        | .value => do
          advance
          optional fuel true v.start ends
        | _ => pure (empty v.start)
      blockEntries fuel start ((key, value) :: done)
    | .blockEnd => advance; return done.reverse
    | _ => fail start t .key

/-- The items of a sequence in brackets. -/
def flowItems (fuel : Nat) (start : Mark) (first : Bool) (done : List Node) :
    Compose (List Node) :=
  match fuel with
  | 0 => throw (.broken 0 .content)
  | fuel + 1 => do
    let t ← peek
    if t.part ≠ .flowSequenceEnd && !first then
      if t.part = .comma then advance else fail start t .sequenceComma
    let t ← peek
    match t.part with
    | .flowSequenceEnd => advance; return done.reverse
    | .key =>
      advance
      let entry ← pair fuel
      let _ ← peek
      flowItems fuel start false (.mapping (t.start.line + 1) .map [entry] :: done)
    | _ => flowItems fuel start false ((← node fuel false false) :: done)

/-- An entry that is an item of a sequence. Where its key is left out, the token after that is passed
over. -/
def pair (fuel : Nat) : Compose (Node × Node) :=
  match fuel with
  | 0 => throw (.broken 0 .content)
  | fuel + 1 => do
    let t ← peek
    let key ←
      if t.part ∈ [.value, .comma, .flowSequenceEnd] then do
        advance
        pure (empty t.start)
      else node fuel false false
    let v ← peek
    if v.part ≠ .value then return (key, empty v.start)
    advance
    if (← peek).part ∈ [.comma, .flowSequenceEnd] then return (key, empty v.start)
    return (key, ← node fuel false false)

/-- The entries of a mapping in brackets. -/
def flowEntries (fuel : Nat) (start : Mark) (first : Bool) (done : List (Node × Node)) :
    Compose (List (Node × Node)) :=
  match fuel with
  | 0 => throw (.broken 0 .content)
  | fuel + 1 => do
    let t ← peek
    if t.part ≠ .flowMappingEnd && !first then
      if t.part = .comma then advance else fail start t .mappingComma
    let t ← peek
    match t.part with
    | .flowMappingEnd => advance; return done.reverse
    | .key =>
      advance
      let k ← peek
      let key ←
        if k.part ∈ [.value, .comma, .flowMappingEnd] then pure (empty k.start)
        else node fuel false false
      let v ← peek
      let value ←
        if v.part = .value then do
          advance
          let w ← peek
          if w.part ∈ [.comma, .flowMappingEnd] then pure (empty w.start)
          else node fuel false false
        else pure (empty v.start)
      flowEntries fuel start false ((key, value) :: done)
    | _ =>
      let key ← node fuel false false
      let v ← peek
      flowEntries fuel start false ((key, empty v.start) :: done)

end

/-- The directives before a document, at most one of them for the version and one for each handle. -/
def directives (fuel : Nat) (versionSeen : Bool) : Compose Unit :=
  match fuel with
  | 0 => return
  | fuel + 1 => do
    let t ← peek
    match t.part with
    | .version major minor =>
      if versionSeen then fail {} t .versionTwice
      if major ≠ 1 || minor ≠ 1 then fail {} t .versionOther
      advance
      directives fuel true
    | .handle handle uri =>
      if ((← get).handles.lookup handle).isSome then fail {} t .handleTwice
      modify fun d => { d with handles := d.handles ++ [(handle, uri)] }
      advance
      directives fuel versionSeen
    | _ => return

def usualHandles : List (String × String) := [("!", "!"), ("!!", String.ofList Tag.family)]

/-- The first document, if there is one. What follows it is looked at only as far as is needed to see
that it is complete. -/
def document (fuel : Nat) : Compose (Option Node) := do
  let _ ← peek
  advance
  let t ← peek
  let isExplicit := match t.part with
    | .version _ _ | .handle _ _ | .documentStart => true
    | _ => false
  if t.part = .streamEnd then return none
  if isExplicit then
    directives fuel false
  modify fun d => { d with handles := d.handles ++ usualHandles }
  if isExplicit then
    let t ← peek
    if t.part ≠ .documentStart then fail {} t .documentStart
    advance
  let t ← peek
  let node ← match isExplicit, t.part with
    | true, .version _ _ | true, .handle _ _ | true, .documentStart | true, .documentEnd
    | true, .streamEnd => pure (empty t.start)
    | _, _ => node fuel true false
  let _ ← peek
  return some node

end Compose

namespace Document

/-- The first document of a text, if it has one. Every character makes a few tokens at most, and every
token a few nodes. -/
def read? (s : Source) : Except Error (Option Document) := do
  let (root?, draft) ←
    (Compose.document (16 * (s.chars.length + 4))).run { feed := .ofSource s }
  return root?.map fun root => { root, anchored := draft.anchored, aliases := draft.aliases }

end Document

end LetWhile.Yaml
