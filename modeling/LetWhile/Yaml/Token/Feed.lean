import LetWhile.Yaml.Scalar.Block
import LetWhile.Yaml.Scalar.Plain
import LetWhile.Yaml.Scalar.Quoted
import LetWhile.Yaml.Token.Word

/-!
The tokens of a text, one after the other. A word turns out to be a key only when a colon follows it
on its line, at most 1024 characters after its start. So tokens are read ahead of their use: a token
is handed out when it can be no key any more and two more are known. What is wrong further on in the
text is never seen.
-/
namespace LetWhile.Yaml

/-- A token that is a key if a colon follows. -/
structure Candidate where
  number : Nat
  mark : Mark
  /-- Nothing but a key can stand at its place. -/
  required : Bool
  /-- Whether it is held back until a colon comes or can come no more. -/
  awaited : Bool := true

/-- A pair of brackets, or all that is outside of them. -/
structure Level where
  candidate : Option Candidate := none
  /-- The number of the last candidate, at first that of the opening bracket. -/
  number : Nat := 0

structure Feed where
  cursor : Cursor
  /-- The tokens that are read and not handed out. -/
  ahead : List Token := []
  /-- How many tokens are handed out. -/
  used : Nat := 0
  started : Bool := false
  /-- Whether a key may start here. -/
  keyAllowed : Bool := true
  /-- One more than the column of the innermost block, or zero outside of all blocks. -/
  margin : Nat := 0
  /-- The margins around it, the innermost first. -/
  margins : List Nat := []
  level : Level := {}
  /-- The levels around it, the innermost first. -/
  levels : List Level := []

abbrev Lex := StateT Feed (Except Error)

instance : MonadLift Scan Lex where
  monadLift scan := fun feed => do
    let (a, cursor) ← scan feed.cursor
    return (a, { feed with cursor })

namespace Feed

def ofSource (s : Source) : Feed := { cursor := .ofSource s }

def inFlow (f : Feed) : Bool := !f.levels.isEmpty

/-- The number of the next token to be read. -/
def next (f : Feed) : Nat := f.used + f.ahead.length

end Feed

namespace Lex

def emit (start : Mark) (part : Part) : Lex Unit :=
  modify fun f => { f with ahead := f.ahead ++ [⟨start, part⟩] }

/-- Puts a token before the one with a number, or last if that one is handed out. -/
def emitAt (number : Nat) (start : Mark) (part : Part) : Lex Unit :=
  modify fun f =>
    let n := if number < f.used then f.ahead.length else number - f.used
    { f with ahead := f.ahead.take n ++ ⟨start, part⟩ :: f.ahead.drop n }

def allowKey (allowed : Bool) : Lex Unit := modify ({ · with keyAllowed := allowed })

/-- Gives up the candidate of this level. -/
def dropCandidate : Lex Unit := do
  let f ← get
  match f.level.candidate with
  | none => return
  | some c =>
    if c.required then Scan.fail c.mark .noColon
    set { f with level := { f.level with candidate := none } }

/-- What starts here is a candidate, if a key may start here. -/
def newCandidate : Lex Unit := do
  let f ← get
  if f.keyAllowed then
    dropCandidate
    let mark := f.cursor.mark
    let c := { number := f.next, mark, required := !f.inFlow && f.margin = mark.column + 1 }
    modify ({ · with level := ⟨some c, c.number⟩ })

/-- Whether a colon here would make a candidate a key. -/
def isOpen (c : Candidate) : Lex Bool := do
  let mark ← Scan.mark
  if mark.line = c.mark.line && mark.index ≤ c.mark.index + 1024 then return true
  if c.required then Scan.fail c.mark .noColon
  return false

def maxDepth : Nat := 10000

/-- Starts a block at a column, unless one has started there. -/
def openBlock (column number : Nat) (start : Mark) (part : Part) : Lex Unit := do
  let f ← get
  if !f.inFlow && f.margin ≤ column then
    set { f with margin := column + 1, margins := f.margin :: f.margins }
    if maxDepth ≤ f.margins.length then
      Scan.fail ((f.level.candidate.map (·.mark)).getD {}) .tooDeep
    emitAt number start part

/-- How many of the blocks, the innermost first, are too deep for a margin, and the margins left. -/
def deeper (margin : Nat) : Nat → List Nat → Nat × Nat × List Nat
  | current, outer :: rest =>
    if margin < current then
      let (n, left) := deeper margin outer rest
      (n + 1, left)
    else (0, current, outer :: rest)
  | current, [] => (0, current, [])

/-- Ends the blocks that are too deep for a margin. -/
def closeBlocks (margin : Nat) (start : Mark) : Lex Unit := do
  let f ← get
  if !f.inFlow then
    let (n, margin, margins) := deeper margin f.margin f.margins
    set { f with
      margin, margins, ahead := f.ahead ++ List.replicate n (Token.mk start .blockEnd) }

/-- Passes over a comment and over the comments on the lines below it. Tabs may stand before them. -/
def comments : Scan Unit := do
  let _ ← Scan.gather do
    Scan.comment
    let c ← get
    let (gap, rest) := c.rest.span (· ∈ [' ', '\t', '\r', '\n'])
    let more := rest.head? = some '#' && gap.length < 512
    Scan.want (min (gap.length + 1) 512)
    if more then
      let _ ← Scan.breaks
    return ((), more)

/-- Passes over blanks, comments and line breaks. A tab is no blank where a key may start. -/
def toToken : Lex Unit := do
  let _ ← gatherUpTo ((← get).cursor.size + 1) do
    let _ ← Scan.peek
    Scan.skipMark
    let _ ← Scan.peek
    let f ← get
    Scan.skipWhile fun c => c = ' ' || ((f.inFlow || !f.keyAllowed) && c = '\t')
    if (← Scan.peek) = '#' then comments
    let found ← Scan.lineBreak?
    if found.isSome && !f.inFlow then allowKey true
    return ((), found.isSome)

/-- Passes over a comment behind a token. -/
def lineComment : Scan Unit := do
  let c ← get
  let (blanks, rest) := c.rest.span isBlank
  if !c.newLine then
    Scan.want (min (blanks.length + 1) 512)
    if rest.head? = some '#' && blanks.length < 512 then Scan.comment

/-- Emits a token of one character. -/
def single (part : Part) : Lex Unit := do
  emit (← Scan.mark) part
  Scan.skip 1

def openFlow (part : Part) : Lex Unit := do
  newCandidate
  let f ← get
  set { f with level := ⟨none, f.next⟩, levels := f.level :: f.levels }
  if maxDepth ≤ f.levels.length then Scan.fail f.cursor.mark .tooDeep
  allowKey true
  single part

/-- Closes brackets. If no candidate was between them, the brackets themselves are not held back any
more as a candidate. -/
def closeFlow (part : Part) : Lex Unit := do
  dropCandidate
  modify fun f =>
    match f.levels with
    | [] => f
    | outer :: rest =>
      let release (c : Candidate) := { c with awaited := c.awaited && c.number ≠ f.level.number }
      { f with level := { outer with candidate := outer.candidate.map release }, levels := rest }
  allowKey false
  single part

/-- A dash or a question mark that starts a part of a block. -/
def blockMark (part block : Part) (problem : Problem) : Lex Unit := do
  let f ← get
  if !f.inFlow then
    if !f.keyAllowed then Scan.fail f.cursor.mark problem
    openBlock f.cursor.mark.column f.next f.cursor.mark block
  dropCandidate
  allowKey (part = .entry || !f.inFlow)
  single part

/-- A colon: the candidate before it is a key, or the key is the part after a question mark, or there
is none. -/
def value : Lex Unit := do
  let f ← get
  let key ← match f.level.candidate with
    | some c => pure (if ← isOpen c then some c else none)
    | none => pure none
  match key with
  | some c =>
    emitAt c.number c.mark .key
    openBlock c.mark.column c.number c.mark .blockMapping
    modify fun f => { f with level := { f.level with candidate := none }, keyAllowed := false }
  | none =>
    if !f.inFlow then
      if !f.keyAllowed then Scan.fail f.cursor.mark .valueHere
      openBlock f.cursor.mark.column f.next f.cursor.mark .blockMapping
    allowKey (!f.inFlow)
  single .value

/-- A word that may be a key, after which none may start. -/
def word (scan : Scan Part) : Lex Unit := do
  newCandidate
  allowKey false
  let start ← Scan.mark
  emit start (← scan)

def plain : Lex Unit := do
  newCandidate
  allowKey false
  let f ← get
  let (text, broken) ← Plain.scan f.margin f.inFlow
  emit f.cursor.mark (.scalar true text)
  if broken then allowKey true

def block (literal : Bool) : Lex Unit := do
  dropCandidate
  allowKey true
  let f ← get
  emit f.cursor.mark (.scalar false (← Block.scan literal f.margin))

/-- Whether a plain scalar can start with a character, before another one. -/
def startsPlain (inFlow : Bool) (c next : Char) : Bool :=
  let marks := ['-', '?', ':', ',', '[', ']', '\x7b', '\x7d', '#', '&', '*', '!', '|', '>', '\'', '"',
    '%', '@', '\x60']
  !(endsWord c || c ∈ marks) || (c = '-' && !isBlank next) ||
    (!inFlow && (c = '?' || c = ':') && !endsWord next)

/-- A token inside a document. -/
def inner : Lex Unit := do
  let f ← get
  let c ← Scan.peek
  let next ← Scan.peek 1
  let stands := f.inFlow || endsWord next
  match c with
  | '[' => openFlow .flowSequence
  | '\x7b' => openFlow .flowMapping
  | ']' => closeFlow .flowSequenceEnd
  | '\x7d' => closeFlow .flowMappingEnd
  | ',' => dropCandidate; allowKey true; single .comma
  | '*' => word (return .ref (← Word.name))
  | '&' => word (return .anchor (← Word.name))
  | '!' => word Word.tag
  | '\'' => word (return .scalar false (← Quoted.scan false))
  | '"' => word (return .scalar false (← Quoted.scan true))
  | c =>
    if c = '-' && endsWord next then blockMark .entry .blockSequence .entryHere
    else if c = '?' && stands then blockMark .key .blockMapping .keyHere
    else if c = ':' && stands then value
    else if (c = '|' || c = '>') && !f.inFlow then block (c = '|')
    else if startsPlain f.inFlow c next then plain
    else Scan.fail f.cursor.mark .cannotStart
  if (← get).ahead.getLast?.all (·.part ≠ .entry) then lineComment

/-- A token between documents, where all blocks end. -/
def outer (scan : Scan Part) : Lex Unit := do
  closeBlocks 0 (← Scan.mark)
  dropCandidate
  allowKey false
  let start ← Scan.mark
  emit start (← scan)

/-- The end counts as the start of a line. -/
def streamEnd : Lex Unit := do
  modify fun f =>
    let m := f.cursor.mark
    let mark := if m.column = 0 then m else { m with line := m.line + 1, column := 0 }
    { f with cursor := { f.cursor with mark } }
  outer (return .streamEnd)

/-- Reads one more token, and the ends and the starts of blocks that come with it. -/
def read : Lex Unit := do
  let before ← Scan.mark
  let _ ← Scan.peek
  if !(← get).started then
    modify ({ · with started := true })
    emit before .streamStart
    return
  toToken
  let here ← Scan.mark
  closeBlocks (here.column + 1) before
  let _ ← Scan.peek 3
  let c ← Scan.peek
  if c = eof then streamEnd
  else if here.column = 0 && c = '%' then outer Word.directive
  else if ← Scan.atDocument '-' then outer do Scan.skip 3; return .documentStart
  else if ← Scan.atDocument '.' then outer do Scan.skip 3; return .documentEnd
  else inner

/-- Whether the first token ahead may still become a key. -/
def isHeldBack : Lex Bool := do
  let f ← get
  let first := (f.level :: f.levels).findSome? fun level =>
    level.candidate.filter fun c => c.awaited && c.number = f.used
  match first with
  | some c => isOpen c
  | none => return false

/-- The next token, which stays where it is. -/
def peek : Lex Token := do
  let _ ← gatherUpTo ((← get).cursor.size + 4) do
    let more ← if (← get).ahead.length < 3 then pure true else isHeldBack
    if more then read
    return ((), more)
  let f ← get
  return f.ahead.headD ⟨f.cursor.mark, .streamEnd⟩

def advance : Lex Unit := modify fun f => { f with ahead := f.ahead.drop 1, used := f.used + 1 }

end Lex

end LetWhile.Yaml
