import LetWhile.Program
import LetWhile.Value

namespace LetWhile

/-- The statements with a test. -/
inductive Construct where
  | branch | loop
  deriving DecidableEq, Repr

def Construct.keyword : Construct → String
  | .branch => "if"
  | .loop => "while"

/-- What is wrong with a tree that no text has. -/
inductive Defect where
  | exprHole
  | stmtHole
  | unknownOp (symbol : String)
  deriving DecidableEq, Repr

def Defect.message : Defect → String
  | .exprHole => "unexpected expression <nil>"
  | .stmtHole => "unexpected statement <nil>"
  | .unknownOp symbol => s!"unexpected binary op: {symbol}"

/-- Why a program stops. -/
inductive Failure where
  | undeclared (name : String)
  | redeclared (name : String)
  | typeMismatch (op : Op) (left right : Value)
  | divisionByZero
  | notBoolean (construct : Construct) (value : Value)
  | writeFailed
  | defect (defect : Defect)
  deriving DecidableEq

namespace Failure

def isDefect : Failure → Bool
  | .defect _ => true
  | _ => false

/-- What the operands of an operator have to be. -/
def operands (op : Op) : Value.Variant := if op.isLogical then .boolean else .number

def undeclaredText (name : String) : String := s!"undeclared variable: {name}"

def redeclaredText (name : String) : String := s!"variable can't be redeclared: {name}"

def operandsText (op : Op) : String :=
  s!"type mismatch: '{op.symbol}' expects {(operands op).name} operands"

def divisionText : String := "division by zero"

def testText (construct : Construct) : String :=
  s!"{construct.keyword} test expression isn't of boolean type"

def message : Failure → String
  | .undeclared name => undeclaredText name
  | .redeclared name => redeclaredText name
  | .typeMismatch op l r => s!"{operandsText op}, got {l.variant.name} and {r.variant.name}"
  | .divisionByZero => divisionText
  | .notBoolean construct v => s!"{testText construct}: got {v.variant.name}"
  | .writeFailed => "write failed"
  | .defect d => d.message

end Failure

end LetWhile
