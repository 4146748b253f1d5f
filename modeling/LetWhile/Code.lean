/-!
Typed block code. A function is a sequence of lines; a label starts a block, and a jump ends it. The
result of an instruction goes into a register that is set once. Cells are the storage that lines
load from and store to.
-/
namespace LetWhile.Code

inductive Ty where
  | i1 | i8 | i32 | i64 | double
  | pointer (ty : Ty)
  | array (size : Nat) (ty : Ty)
  deriving DecidableEq, Repr

/-- The storage behind one name declared in one block. Slots are numbered from one. -/
structure Slot where
  name : String
  index : Nat
  deriving DecidableEq, Repr

/-- A slot has a flag that says whether its declaration has run, a flag for the kind of its value,
and the value. -/
inductive Part where
  | bound | isBool | num
  deriving DecidableEq, Repr

structure Cell where
  slot : Slot
  part : Part
  deriving DecidableEq, Repr

/-- The name of a block. -/
inductive Label where
  | plain (name : String)
  | numbered (stem : String) (index : Nat)
  deriving DecidableEq, Repr

inductive Operand where
  | bit (b : Bool)
  | double (x : Float)
  | int (n : Nat)
  | null
  | text (s : String)
  | param (name : String)
  | cell (c : Cell)
  | reg (r : Nat)
  deriving DecidableEq

inductive BitOp where
  | and | or | xor
  deriving DecidableEq, Repr

inductive FloatOp where
  | add | sub | mul | div
  deriving DecidableEq, Repr

/-- Comparisons of doubles: ordered equal, ordered unequal, ordered greater, ordered less, and
unordered. -/
inductive FloatTest where
  | oeq | one | ogt | olt | uno
  deriving DecidableEq, Repr

/-- Instructions with a result. -/
inductive Instr where
  | alloca (ty : Ty)
  | load (ty : Ty) (source : Operand)
  | select (ty : Ty) (test yes no : Operand)
  | bits (op : BitOp) (a b : Operand)
  | add (a b : Operand)
  | atLeast (a b : Operand)
  | compare (test : FloatTest) (a b : Operand)
  | arith (op : FloatOp) (a b : Operand)
  | toDouble (bit : Operand)
  | first (size : Nat) (array : Operand)
  | printf (format argument : Operand)
  | snprintf (buffer : Operand) (size : Nat) (format precision value : Operand)
  | strtod (text : Operand)
  deriving DecidableEq

/-- Instructions without one. -/
inductive Effect where
  | store (ty : Ty) (value target : Operand)
  | print (isBool num : Operand)
  | trap (message : Operand)
  | exit (status : Nat)
  deriving DecidableEq

inductive Jump where
  | goto (target : Label)
  | branch (test : Operand) (yes no : Label)
  | ret (status : Option Nat)
  | unreachable
  deriving DecidableEq

inductive Line where
  | label (l : Label)
  | reserve (c : Cell)
  | set (r : Nat) (i : Instr)
  | act (e : Effect)
  | jump (j : Jump)
  deriving DecidableEq

def Line.isLabel : Line → Bool
  | .label _ => true
  | _ => false

/-- A function without a result type returns nothing. -/
structure Function where
  result : Option Ty
  name : String
  params : List (Ty × String)
  lines : List Line

/-- The label of a block and the lines after it. -/
structure BasicBlock where
  label : Label
  lines : List Line

/-- The blocks of a sequence of lines, in order. -/
def blocks : List Line → List BasicBlock
  | [] => []
  | .label l :: rest => ⟨l, rest.takeWhile fun line => !line.isLabel⟩ :: blocks rest
  | _ :: rest => blocks rest

/-- Blocks are listed in the order in which their labels were made. -/
def Label.rank : Label → Nat
  | .plain _ => 0
  | .numbered _ index => index

def Function.listing (f : Function) : List BasicBlock :=
  (blocks f.lines).mergeSort fun a b => decide (a.label.rank ≤ b.label.rank)

end LetWhile.Code
