import LetWhile.Yaml.Scalar.Gap

/-! Scalars in single or double quotes. -/
namespace LetWhile.Yaml.Quoted

/-- What a backslash before a character stands for. -/
def unescape? : Char → Option Char
  | '0' => some '\x00'
  | 'a' => some '\x07'
  | 'b' => some '\x08'
  | 't' | '\t' => some '\t'
  | 'n' => some '\n'
  | 'v' => some '\x0b'
  | 'f' => some '\x0c'
  | 'r' => some '\r'
  | 'e' => some '\x1b'
  | ' ' => some ' '
  | '"' => some '"'
  | '\'' => some '\''
  | '\\' => some '\\'
  | 'N' => some '\u0085'
  | '_' => some '\u00a0'
  | 'L' => some '\u2028'
  | 'P' => some '\u2029'
  | _ => none

/-- How many hexadecimal digits of a code follow a backslash and a character. -/
def codeWidth? : Char → Option Nat
  | 'x' => some 2
  | 'u' => some 4
  | 'U' => some 8
  | _ => none

/-- The character whose code has `width` hexadecimal digits at the front of a text. -/
def coded (width : Nat) (cs : List Char) : Except Problem Char :=
  let code := (cs.take width).foldl (fun n c => return (← n) * 16 + (← hexDigit? c)) (some 0)
  match code with
  | some n =>
    if (cs.take width).length < width then .error .escapeHex
    else if n.isValidChar then .ok (Char.ofNat n)
    else .error .escapeCode
  | none => .error .escapeHex

/-- A word in quotes: what it means, how it is written, and what follows it. -/
structure Split where
  word : List Char := []
  written : List Char := []
  rest : List Char

/-- Puts a character before a word, and how that one is written. -/
def Split.cons (c : Char) (written : List Char) (s : Split) : Split :=
  { s with word := c :: s.word, written := written ++ s.written }

/-- A word in double quotes. It ends before a closing quote and before a line break that is hidden by a
backslash. -/
def splitDouble : List Char → Except Problem Split
  | [] => .ok { rest := [] }
  | '\\' :: [] => .error .escape
  | '\\' :: c :: cs =>
    if isBreak c then .ok { rest := '\\' :: c :: cs }
    else match unescape? c, codeWidth? c with
      | some d, _ => return (← splitDouble cs).cons d ['\\', c]
      | none, some width => do
        let d ← coded width cs
        return (← splitDouble (cs.drop width)).cons d ('\\' :: c :: cs.take width)
      | none, none => .error .escape
  | c :: cs =>
    if c = '"' || endsWord c then .ok { rest := c :: cs }
    else return (← splitDouble cs).cons c [c]
termination_by cs => cs.length
decreasing_by all_goals simp; try omega

/-- A word in single quotes, where two quotes stand for one. -/
def splitSingle : List Char → Split
  | '\'' :: '\'' :: cs => (splitSingle cs).cons '\'' ['\'', '\'']
  | c :: cs => if c = '\'' || endsWord c then { rest := c :: cs } else (splitSingle cs).cons c [c]
  | [] => { rest := [] }

def word (double : Bool) (start : Mark) : Scan (List Char) := do
  let c ← get
  match if double then splitDouble c.rest else .ok (splitSingle c.rest) with
  | .error p => Scan.fail start p
  | .ok s =>
    set (c.pass s.written s.rest)
    return s.word

/-- A word and the gap behind it, and whether the closing quote has not come. -/
def piece (double : Bool) (start : Mark) : Scan (List Char × Bool) := do
  if ← Scan.atAnyDocument then Scan.fail start .quoteDocument
  if (← Scan.peek) = eof then Scan.fail start .quoteEnd
  let word ← word double start
  Scan.need 2
  let quote := if double then '"' else '\''
  let hidden := (← Scan.peek) = '\\'
  if hidden then
    Scan.skip 1
    let _ ← Scan.lineBreak?
  if (← Scan.peek) = quote then return (word, false)
  let gap ← if hidden then pure (Gap.breaks none (← Scan.breaks)) else Gap.scan
  return (word ++ gap.text, true)

/-- A scalar in quotes. -/
def scan (double : Bool) : Scan String := do
  let start ← Scan.mark
  Scan.skip 1
  let pieces ← Scan.gather (piece double start)
  Scan.skip 1
  return String.ofList pieces.flatten

end LetWhile.Yaml.Quoted
