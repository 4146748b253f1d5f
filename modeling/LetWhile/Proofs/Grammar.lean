import LetWhile.Program.Parse

/-!
# The grammar

Derivations of programs as trees over their tokens. An expression belongs to a tier; a chain of a
tier is one operand of the next tier or several, joined by the operators of the tier:

    or = and (|| and)*             and = compare (&& compare)*
    compare = sum ((> | < | ==) sum)*
    sum = product ((+ | -) product)*
    product = unary ((* | /) unary)*
    unary = - unary | name | number | true | false | ( or )

A derivation has its tokens, read off from left to right, and its tree, in which a chain is folded
to the left and a minus sign subtracts from zero.
-/

namespace LetWhile.Grammar

/-- A token of one kind. -/
abbrev Terminal (kind : Token.Kind) := { t : Token // t.kind = kind }

/-- The tiers of expressions, the loosest first. -/
inductive Tier where
  | or | and | compare | sum | product | unary
  deriving DecidableEq

namespace Tier

/-- The tier of the operands of a chain. -/
def tighter : Tier → Tier
  | .or => .and
  | .and => .compare
  | .compare => .sum
  | .sum => .product
  | .product => .unary
  | .unary => .unary

/-- The operator that a token stands for in a chain of the tier. -/
def operator? : Tier → Token.Kind → Option Op
  | .or, .or => some .or
  | .and, .and => some .and
  | .compare, .greater => some .greater
  | .compare, .less => some .less
  | .compare, .equal => some .equal
  | .sum, .plus => some .add
  | .sum, .minus => some .sub
  | .product, .multi => some .mul
  | .product, .div => some .div
  | _, _ => none

end Tier

/-- A number that can be read. -/
structure Numeral where
  token : Token
  value : Float
  kind : token.kind = .number
  read : Number.read? token.text = some value

/-- An operator of a tier. -/
structure Joint (tier : Tier) where
  token : Token
  op : Op
  fits : tier.operator? token.kind = some op

mutual

/-- Derivations of expressions. -/
inductive Phrase : Tier → Type where
  | name (t : Terminal .identifier) : Phrase .unary
  | number (n : Numeral) : Phrase .unary
  | trueWord (t : Terminal .true) : Phrase .unary
  | falseWord (t : Terminal .false) : Phrase .unary
  | minus (sign : Terminal .minus) (operand : Phrase .unary) : Phrase .unary
  | group (left : Terminal .openParen) (inner : Phrase .or) (right : Terminal .closeParen) :
      Phrase .unary
  | chain (tier : Tier) (joins : tier ≠ .unary) (first : Phrase tier.tighter) (more : Links tier) :
      Phrase tier

/-- The operands of a chain behind the first, each with its operator. -/
inductive Links : Tier → Type where
  | nil (tier : Tier) : Links tier
  | cons (tier : Tier) (joint : Joint tier) (operand : Phrase tier.tighter) (more : Links tier) :
      Links tier

end

mutual

def Phrase.tokens {tier : Tier} : Phrase tier → List Token
  | .name t => [t.val]
  | .number n => [n.token]
  | .trueWord t => [t.val]
  | .falseWord t => [t.val]
  | .minus sign operand => sign.val :: operand.tokens
  | .group left inner right => left.val :: (inner.tokens ++ [right.val])
  | .chain _ _ first more => first.tokens ++ more.tokens

def Links.tokens {tier : Tier} : Links tier → List Token
  | .nil _ => []
  | .cons _ joint operand more => joint.token :: (operand.tokens ++ more.tokens)

end

mutual

def Phrase.tree {tier : Tier} : Phrase tier → Expr
  | .name t => .variable t.val.text
  | .number n => .number n.value
  | .trueWord _ => .bool true
  | .falseWord _ => .bool false
  | .minus _ operand => .binary .sub (.number 0) operand.tree
  | .group _ inner _ => inner.tree
  | .chain _ _ first more => more.fold first.tree

/-- Puts the operands of a chain on `left`, one after the other. -/
def Links.fold {tier : Tier} : Links tier → Expr → Expr
  | .nil _, left => left
  | .cons _ joint operand more, left => more.fold (.binary joint.op left operand.tree)

end

/-- Derivations of statements. -/
inductive Sentence where
  | declare (keyword : Terminal .let) (name : Terminal .identifier) (sign : Terminal .assign)
      (value : Phrase .or) (stop : Terminal .semicolon)
  | assign (name : Terminal .identifier) (sign : Terminal .assign) (value : Phrase .or)
      (stop : Terminal .semicolon)
  | branch (keyword : Terminal .if) (left : Terminal .openParen) (test : Phrase .or)
      (right : Terminal .closeParen) (start : Terminal .openCurly) (yes : List Sentence)
      (finish : Terminal .closeCurly)
  | branchElse (keyword : Terminal .if) (left : Terminal .openParen) (test : Phrase .or)
      (right : Terminal .closeParen) (start : Terminal .openCurly) (yes : List Sentence)
      (finish : Terminal .closeCurly) (other : Terminal .else) (start' : Terminal .openCurly)
      (no : List Sentence) (finish' : Terminal .closeCurly)
  | loop (keyword : Terminal .while) (left : Terminal .openParen) (test : Phrase .or)
      (right : Terminal .closeParen) (start : Terminal .openCurly) (body : List Sentence)
      (finish : Terminal .closeCurly)
  | print (keyword : Terminal .print) (left : Terminal .openParen) (value : Phrase .or)
      (right : Terminal .closeParen) (stop : Terminal .semicolon)
  | result (keyword : Terminal .return) (value : Phrase .or) (stop : Terminal .semicolon)
  | eval (value : Phrase .or) (stop : Terminal .semicolon)

/-- The derivation of a program is one of each of its statements. -/
abbrev Derivation := List Sentence

mutual

def Sentence.tokens : Sentence → List Token
  | .declare keyword name sign value stop =>
    keyword.val :: name.val :: sign.val :: (value.tokens ++ [stop.val])
  | .assign name sign value stop => name.val :: sign.val :: (value.tokens ++ [stop.val])
  | .branch keyword left test right start yes finish =>
    keyword.val :: left.val :: (test.tokens ++ right.val :: start.val ::
      (Derivation.tokens yes ++ [finish.val]))
  | .branchElse keyword left test right start yes finish other start' no finish' =>
    keyword.val :: left.val :: (test.tokens ++ right.val :: start.val ::
      (Derivation.tokens yes ++ finish.val :: other.val :: start'.val ::
        (Derivation.tokens no ++ [finish'.val])))
  | .loop keyword left test right start body finish =>
    keyword.val :: left.val :: (test.tokens ++ right.val :: start.val ::
      (Derivation.tokens body ++ [finish.val]))
  | .print keyword left value right stop =>
    keyword.val :: left.val :: (value.tokens ++ [right.val, stop.val])
  | .result keyword value stop => keyword.val :: (value.tokens ++ [stop.val])
  | .eval value stop => value.tokens ++ [stop.val]

def Derivation.tokens : List Sentence → List Token
  | [] => []
  | s :: rest => s.tokens ++ Derivation.tokens rest

end

mutual

def Sentence.tree : Sentence → Stmt
  | .declare _ name _ value _ => .declare name.val.text value.tree
  | .assign name _ value _ => .assign name.val.text value.tree
  | .branch _ _ test _ _ yes _ => .branch test.tree (Derivation.tree yes) none
  | .branchElse _ _ test _ _ yes _ _ _ no _ =>
    .branch test.tree (Derivation.tree yes) (some (Derivation.tree no))
  | .loop _ _ test _ _ body _ => .loop test.tree (Derivation.tree body)
  | .print _ _ value _ _ => .print value.tree
  | .result _ value _ => .result value.tree
  | .eval value _ => .eval value.tree

def Derivation.tree : List Sentence → Block
  | [] => []
  | s :: rest => s.tree :: Derivation.tree rest

end

end LetWhile.Grammar
