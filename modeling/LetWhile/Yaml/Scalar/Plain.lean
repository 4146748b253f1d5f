import LetWhile.Yaml.Scalar.Gap

/-! Scalars without quotes. -/
namespace LetWhile.Yaml.Plain

/-- A mark that ends a plain scalar inside brackets. -/
def isFlowMark (c : Char) : Bool := c ∈ [',', '?', '[', ']', '\x7b', '\x7d']

/-- Splits a text after its first word: a colon belongs to a word unless the word ends behind it. -/
def splitWord (inFlow : Bool) : List Char → List Char × List Char
  | [] => ([], [])
  | c :: cs =>
    if endsWord c || (c = ':' && cs.head?.all endsWord) || (inFlow && isFlowMark c) then
      ([], c :: cs)
    else
      let (word, rest) := splitWord inFlow cs
      (c :: word, rest)

/-- A word and the gap behind it; the last word of a scalar may be empty. -/
structure Piece where
  word : List Char := []
  gap : Gap := .blanks []

/-- The words of a scalar with the gaps between them. -/
def join : List Piece → List Char
  | [] => []
  | [p] => p.word
  | p :: q :: rest => if q.word.isEmpty then p.word else p.word ++ p.gap.text ++ join (q :: rest)

/-- Whether a line break follows the last word. -/
def endsBroken (pieces : List Piece) : Bool :=
  (pieces.filter fun p => !p.word.isEmpty).getLast?.any (·.gap.isBroken)

/-- One word and the gap behind it. A scalar ends before a comment, before a mark, at the end of the
document, and in a block where a line has less than `margin` blanks at its front. -/
def piece (start : Mark) (margin : Nat) (inFlow : Bool) : Scan (Piece × Bool) := do
  if (← Scan.atAnyDocument) || (← Scan.peek) = '#' then return ({}, false)
  let word ← modifyGet fun c =>
    let (word, rest) := splitWord inFlow c.rest
    (word, c.pass word rest)
  if !word.isEmpty then Scan.need 2
  let next ← Scan.peek
  if !(isBlank next || isBreak next) then return ({ word }, false)
  let gap ← Gap.scan do
    if (← Scan.peek) = '\t' && (← Scan.mark).column < margin then Scan.fail start .plainTab
  return ({ word, gap }, inFlow || margin ≤ (← Scan.mark).column)

/-- A plain scalar, and whether a line break follows it. -/
def scan (margin : Nat) (inFlow : Bool) : Scan (String × Bool) := do
  let start ← Scan.mark
  let pieces ← Scan.gather (piece start margin inFlow)
  return (String.ofList (join pieces), endsBroken pieces)

end LetWhile.Yaml.Plain
