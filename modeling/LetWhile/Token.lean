namespace LetWhile

/-- A place in a text: lines and columns count from one, and a column is one character. -/
structure Loc where
  file : String
  line : Nat
  col : Nat
  deriving DecidableEq, Repr

namespace Loc

def text (l : Loc) : String := s!"{l.file}:{l.line}:{l.col}"

/-- How a message names a place that may not be known. -/
def describe : Option Loc → String
  | some l => l.text
  | none => "<unknown>"

end Loc

/-- What a token is. Every kind has a code; `other` stands for the codes that name none. -/
inductive Token.Kind where
  | error | eof | number | identifier
  | «let» | «if» | «else» | «while» | print | «return» | «true» | «false»
  | plus | minus | multi | div | and | or | greater | less | equal | assign
  | semicolon | lineComment | openParen | closeParen | openCurly | closeCurly
  | other (code : UInt64)
  deriving DecidableEq, Repr

namespace Token.Kind

/-- The kinds with a name, in the order of their codes, which start at one. -/
def named : List (Kind × String) := [
  (.error, "Error"), (.eof, "EOF"), (.number, "Number"), (.identifier, "Identifier"),
  (.let, "Let"), (.if, "If"), (.else, "Else"), (.while, "While"), (.print, "Print"),
  (.return, "Return"), (.true, "True"), (.false, "False"), (.plus, "Plus"), (.minus, "Minus"),
  (.multi, "Multi"), (.div, "Div"), (.and, "And"), (.or, "Or"), (.greater, "Greater"),
  (.less, "Less"), (.equal, "Equal"), (.assign, "Assign"), (.semicolon, "Semicolon"),
  (.lineComment, "LineComment"), (.openParen, "OpenParentheses"),
  (.closeParen, "CloseParentheses"), (.openCurly, "OpenCurly"), (.closeCurly, "CloseCurly")]

def ofCode (code : UInt64) : Kind :=
  if code = 0 then .other code
  else match named[code.toNat - 1]? with
    | some (kind, _) => kind
    | none => .other code

/-- A code without a name is shown as a signed number. -/
def name (kind : Kind) : String :=
  match kind with
  | .other code => s!"TokenType({code.toInt64.toInt})"
  | _ => (named.lookup kind).getD ""

end Token.Kind

structure Token where
  kind : Token.Kind
  text : String
  loc : Option Loc
  deriving DecidableEq, Repr

namespace Token

/-- Neither the end of the text nor an error. -/
def isOrdinary (t : Token) : Bool := t.kind ≠ .error && t.kind ≠ .eof

def isComment (t : Token) : Bool := t.kind = .lineComment

/-- How a message names a token. -/
def describe (t : Token) : String :=
  match t.kind with
  | .eof => "end of file"
  | .identifier | .number => s!"{t.kind.name} '{t.text}'"
  | _ => s!"'{t.text}'"

end Token

end LetWhile
