import LetWhile.Yaml.Cursor

/-! Scalars whose lines are indented below a `|` or a `>`. -/
namespace LetWhile.Yaml.Block

/-- What becomes of the line breaks at the end. -/
inductive Chomping where
  | strip | clip | keep
  deriving DecidableEq

/-- A line, the break that ends it, and the breaks of the empty lines below it. -/
structure Line where
  text : List Char
  ending : List Char
  more : List Char

/-- The text of some lines, before which come the breaks `ending` and `more`. Where lines are folded, a
line feed between two lines that do not start with a blank is dropped; if no empty line is between
them, a space takes its place. -/
def join (literal : Bool) (chomping : Chomping) (blankBefore : Bool) (ending more : List Char) :
    List Line → List Char
  | [] =>
    match chomping with
    | .strip => []
    | .clip => ending
    | .keep => ending ++ more
  | line :: lines =>
    let blank := line.text.head?.any isBlank
    let folded := !literal && !blankBefore && !blank && ending = ['\n']
    let joint := if !folded then ending else if more.isEmpty then [' '] else []
    joint ++ more ++ line.text ++ join literal chomping blank line.ending line.more lines

def chomping? : Scan (Option Chomping) := do
  match ← Scan.peek with
  | '+' => Scan.skip 1; return some .keep
  | '-' => Scan.skip 1; return some .strip
  | _ => return none

/-- The depth that a digit behind the mark asks for, or zero. -/
def depth (start : Mark) : Scan Nat := do
  let c ← Scan.peek
  if c = '0' then Scan.fail start .indentZero
  if '1' ≤ c && c ≤ '9' then
    Scan.skip 1
    return c.toNat - '0'.toNat
  return 0

/-- The marks behind a `|` or `>`, in either order. -/
def header (start : Mark) : Scan (Chomping × Nat) := do
  match ← chomping? with
  | some chomping => return (chomping, ← depth start)
  | none =>
    let depth ← depth start
    if depth = 0 then return (.clip, 0)
    return ((← chomping?).getD .clip, depth)

/-- Passes over the indentation of a line, which is of all its spaces if `indent` is zero, and the
line break behind it. Gives the break and the depth. -/
def indentation (start : Mark) (indent : Nat) : Scan ((Option Char × Nat) × Bool) := do
  let c ← get
  let spaces := (c.rest.takeWhile (· = ' ')).length
  Scan.skip (if indent = 0 then spaces else min spaces (indent - c.mark.column))
  let depth := (← Scan.mark).column
  if (← Scan.peek) = '\t' && (indent = 0 || depth < indent) then Scan.fail start .indentTab
  let found ← Scan.lineBreak?
  return ((found, depth), found.isSome)

/-- Passes over empty lines and the indentation of the next line. Gives the breaks and the greatest
depth. -/
def emptyLines (start : Mark) (indent : Nat) : Scan (List Char × Nat) := do
  let found ← Scan.gather (indentation start indent)
  return (found.filterMap (·.1), found.foldl (fun m x => max m x.2) 0)

/-- A line at the depth `indent`, unless there is none. -/
def line (start : Mark) (indent : Nat) : Scan (Option Line × Bool) := do
  if (← Scan.mark).column ≠ indent || (← Scan.peek) = eof then return (none, false)
  let text ← Scan.takeWhile (!endsLine ·)
  let ending := (← Scan.lineBreak?).toList
  let (more, _) ← emptyLines start indent
  return (some { text, ending, more }, true)

/-- A block scalar. Without a digit behind the mark its first lines tell how deep it is indented; it is
at least as deep as `margin` and one. -/
def scan (literal : Bool) (margin : Nat) : Scan String := do
  let start ← Scan.mark
  Scan.skip 1
  let (chomping, depth) ← header start
  Scan.skipWhile isBlank
  if (← Scan.peek) = '#' then Scan.comment
  if !endsLine (← Scan.peek) then Scan.fail start .lineEnd
  let _ ← Scan.lineBreak?
  let asked := if depth = 0 then 0 else margin - 1 + depth
  let (more, deepest) ← emptyLines start asked
  let indent := if asked = 0 then max deepest (max margin 1) else asked
  let lines ← Scan.gather (line start indent)
  return String.ofList (join literal chomping false [] more (lines.filterMap id))

end LetWhile.Yaml.Block
