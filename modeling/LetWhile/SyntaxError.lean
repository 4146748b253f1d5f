import LetWhile.Token

namespace LetWhile

/-- What the parser insists on at one place. -/
inductive Wanted where
  | name | assign | semicolon | openTest | closeTest | closeGroup | openBlock
  deriving DecidableEq, Repr

namespace Wanted

def kind : Wanted → Token.Kind
  | .name => .identifier
  | .assign => .assign
  | .semicolon => .semicolon
  | .openTest => .openParen
  | .closeTest | .closeGroup => .closeParen
  | .openBlock => .openCurly

def text : Wanted → String
  | .name => "variable name"
  | .assign => "'='"
  | .semicolon => "';'"
  | .openTest => "'('"
  | .closeTest => "')'"
  | .closeGroup => "closing parenthesis"
  | .openBlock => "'\x7b'"

end Wanted

inductive SyntaxError.Cause where
  | lexical (message : String)
  | expected (wanted : Wanted) (found : Token)
  | noExpression (found : Token)
  | badNumber (text : String)
  | unclosedBlock
  deriving DecidableEq, Repr

structure SyntaxError where
  loc : Option Loc
  cause : SyntaxError.Cause
  deriving DecidableEq, Repr

namespace SyntaxError

def Cause.message : Cause → String
  | .lexical message => message
  | .expected wanted found => s!"expected {wanted.text}, found {found.describe}"
  | .noExpression found =>
    if found.kind = .eof then "unexpected end of file" else s!"invalid symbol {found.describe}"
  | .badNumber text => s!"invalid number '{text}'"
  | .unclosedBlock => "unclosed block statement"

/-- Whether the error was found at the end of the tokens. -/
def Cause.atEnd : Cause → Bool
  | .expected _ found | .noExpression found => found.kind = .eof
  | .unclosedBlock => true
  | .lexical _ | .badNumber _ => false

def message (e : SyntaxError) : String := e.cause.message

def text (e : SyntaxError) : String := s!"{Loc.describe e.loc}: {e.message}"

/-- All errors of one text, a line each. -/
def texts (es : List SyntaxError) : String := "\n".intercalate (es.map text)

end SyntaxError

end LetWhile
