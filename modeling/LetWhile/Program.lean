namespace LetWhile

/-- The operators between two operands. A tree may hold a symbol that is none of the language's. -/
inductive Op where
  | add | sub | mul | div | and | or | greater | less | equal
  | unknown (symbol : String)
  deriving DecidableEq, Repr

namespace Op

def symbol : Op → String
  | .add => "+"
  | .sub => "-"
  | .mul => "*"
  | .div => "/"
  | .and => "&&"
  | .or => "||"
  | .greater => ">"
  | .less => "<"
  | .equal => "=="
  | .unknown s => s

def ofSymbol (s : String) : Op :=
  match [Op.add, .sub, .mul, .div, .and, .or, .greater, .less, .equal].find? (·.symbol = s) with
  | some op => op
  | none => .unknown s

/-- The operators on booleans. All others, unknown ones too, take numbers. -/
def isLogical (op : Op) : Bool := op = .and || op = .or

def isKnown : Op → Bool
  | .unknown _ => false
  | _ => true

end Op

/-- Expressions. A tree built by hand may have a hole where an expression belongs. -/
inductive Expr where
  | bool (b : Bool)
  | number (x : Float)
  | variable (name : String)
  | binary (op : Op) (left right : Expr)
  | hole
  deriving DecidableEq

/-- Statements. An `if` without `else` differs from one whose `else` block is empty. -/
inductive Stmt where
  | declare (name : String) (value : Expr)
  | assign (name : String) (value : Expr)
  | branch (test : Expr) (yes : List Stmt) (no : Option (List Stmt))
  | loop (test : Expr) (body : List Stmt)
  | print (value : Expr)
  | eval (value : Expr)
  | result (value : Expr)
  | hole

/-- A program is a list of statements, and so is a block. -/
abbrev Block := List Stmt

/-- No hole and no unknown operator anywhere. -/
def Expr.isWhole : Expr → Bool
  | .bool _ | .number _ | .variable _ => true
  | .binary op l r => op.isKnown && l.isWhole && r.isWhole
  | .hole => false

mutual

def Stmt.isWhole : Stmt → Bool
  | .declare _ e | .assign _ e | .print e | .eval e | .result e => e.isWhole
  | .branch e yes none => e.isWhole && Block.isWhole yes
  | .branch e yes (some no) => e.isWhole && Block.isWhole yes && Block.isWhole no
  | .loop e body => e.isWhole && Block.isWhole body
  | .hole => false

def Block.isWhole : List Stmt → Bool
  | [] => true
  | s :: rest => s.isWhole && Block.isWhole rest

end

/-- The name a statement declares in its own block. -/
def Stmt.declares? : Stmt → Option String
  | .declare name _ => some name
  | _ => none

/-- The names a block declares directly, in order of first appearance. Blocks inside it have frames
of their own. -/
def Block.declarations (b : Block) : List String := (b.filterMap Stmt.declares?).eraseDups

mutual

/-- The blocks inside a statement, each before the blocks inside it. An absent `else` counts as an
empty block. -/
def Stmt.blocks : Stmt → List Block
  | .branch _ yes none => yes :: Block.inner yes ++ [[]]
  | .branch _ yes (some no) => yes :: Block.inner yes ++ no :: Block.inner no
  | .loop _ body => body :: Block.inner body
  | _ => []

def Block.inner : List Stmt → List Block
  | [] => []
  | s :: rest => s.blocks ++ Block.inner rest

end

/-- A block and all the blocks inside it. -/
def Block.all (b : Block) : List Block := b :: Block.inner b

end LetWhile
