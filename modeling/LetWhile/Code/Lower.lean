import LetWhile.Code
import LetWhile.Failure
import LetWhile.Scope

/-!
From programs to block code. A value is two operands, a flag that tells booleans from numbers and a
double; a boolean is 0 or 1. Every name that a block declares has a slot from the start. Whether its
declaration has run is known only at run time, so a name is looked up by going through the slots it
may stand for, nearest last, and keeping the last one that is bound.

* a literal            two constants
* a name               its bound flags; select a slot; trap if none is bound; load it
* an operation         both operands; trap on their kinds; the operation
* a declaration        the value; trap if the slot is bound; store
* an assignment        the value; select a slot as for a name; store
* `if`                 the test; trap on its kind; a block for each side, both going on at the end
* `while`              clear the body's slots once; test, body, test, …
* `return`             the value; go to the end
-/
namespace LetWhile.Code

/-- Why a program cannot be lowered. -/
inductive LowerError where
  | defect (defect : Defect)
  | noSlot (name : String)
  deriving DecidableEq, Repr

def LowerError.message : LowerError → String
  | .defect d => d.message
  | .noSlot name => s!"no slot for {name}"

/-- How many labels, slots and registers were made. -/
structure Counters where
  labels : Nat := 0
  slots : Nat := 0
  regs : Nat := 0
  deriving DecidableEq, Repr

/-- A value with the lines and slots made on the way to it. -/
structure Emitted (α : Type) where
  value : α
  lines : List Line
  slots : List Slot
  next : Counters

/-- Code in the making. -/
def Gen (α : Type) := Counters → Except LowerError (Emitted α)

namespace Gen

def run {α : Type} (g : Gen α) (c : Counters) : Except LowerError (Emitted α) := g c

instance : Monad Gen where
  pure a := fun c => .ok ⟨a, [], [], c⟩
  bind g next := fun c =>
    match g c with
    | .error e => .error e
    | .ok first =>
      match next first.value first.next with
      | .error e => .error e
      | .ok second =>
        .ok ⟨second.value, first.lines ++ second.lines, first.slots ++ second.slots, second.next⟩

def fail {α : Type} (e : LowerError) : Gen α := fun _ => .error e

def emit (l : Line) : Gen Unit := fun c => .ok ⟨(), [l], [], c⟩

/-- The result of an instruction in a new register. -/
def compute (i : Instr) : Gen Operand := fun c =>
  .ok ⟨.reg c.regs, [.set c.regs i], [], { c with regs := c.regs + 1 }⟩

def newLabel (stem : String) : Gen Label := fun c =>
  .ok ⟨.numbered stem (c.labels + 1), [], [], { c with labels := c.labels + 1 }⟩

def newSlot (name : String) : Gen Slot := fun c =>
  let slot := ⟨name, c.slots + 1⟩
  .ok ⟨slot, [], [slot], { c with slots := c.slots + 1 }⟩

end Gen

open Gen

/-- A lowered value. -/
structure Dyn where
  isBool : Operand
  num : Operand

def Slot.bound (s : Slot) : Operand := .cell ⟨s, .bound⟩

def Slot.isBool (s : Slot) : Operand := .cell ⟨s, .isBool⟩

def Slot.num (s : Slot) : Operand := .cell ⟨s, .num⟩

def zero : Operand := .double 0

def not (bit : Operand) : Gen Operand := compute (.bits .xor bit (.bit true))

/-- The block that follows all others. -/
def done : Label := .plain "done"

/-- Stops the program. What comes after is never reached. -/
def trap (message : String) : Gen Unit := do
  emit (.act (.trap (.text message)))
  emit (.jump .unreachable)
  let dead ← newLabel "dead"
  emit (.label dead)

/-- Stops the program if `failed` holds. -/
def guard (failed : Operand) (message : String) : Gen Unit := do
  let fail ← newLabel "trap"
  let ok ← newLabel "ok"
  emit (.jump (.branch failed fail ok))
  emit (.label fail)
  emit (.act (.trap (.text message)))
  emit (.jump .unreachable)
  emit (.label ok)

/-- The storage that a look-up has found so far. -/
structure Found where
  bound : Operand
  isBool : Operand
  num : Operand

/-- Prefers a slot, if it is bound, to what was found further out. -/
def prefer (found : Found) (slot : Slot) : Gen Found := do
  let bound ← compute (.load .i1 slot.bound)
  let isBool ← compute (.select (.pointer .i1) bound slot.isBool found.isBool)
  let num ← compute (.select (.pointer .double) bound slot.num found.num)
  let either ← compute (.bits .or found.bound bound)
  return ⟨either, isBool, num⟩

/-- The storage of the nearest declaration of a name that has run; none if no block around declares
the name, in which case the program has stopped. -/
def resolve (scope : Scope Slot) (name : String) : Gen (Option (Operand × Operand)) := do
  let message := Failure.undeclaredText name
  match (scope.candidates name).reverse with
  | [] =>
    trap message
    return none
  | slot :: nearer =>
    let bound ← compute (.load .i1 slot.bound)
    let found ← nearer.foldlM prefer ⟨bound, slot.isBool, slot.num⟩
    let unbound ← not found.bound
    guard unbound message
    return some (found.isBool, found.num)

def ofNumber (num : Operand) : Dyn := ⟨.bit false, num⟩

def ofBit (bit : Operand) : Gen Dyn := do
  let num ← compute (.toDouble bit)
  return ⟨.bit true, num⟩

def arith (op : FloatOp) (a b : Dyn) : Gen Dyn := do
  let num ← compute (.arith op a.num b.num)
  return ofNumber num

def compare (test : FloatTest) (a b : Dyn) : Gen Dyn := do
  let bit ← compute (.compare test a.num b.num)
  ofBit bit

def logical (op : BitOp) (a b : Dyn) : Gen Dyn := do
  let l ← compute (.compare .one a.num zero)
  let r ← compute (.compare .one b.num zero)
  let bit ← compute (.bits op l r)
  ofBit bit

/-- Stops the program unless both operands are of the kind that the operator takes. -/
def checkOperands (op : Op) (a b : Dyn) : Gen Unit := do
  if op.isLogical then
    let both ← compute (.bits .and a.isBool b.isBool)
    let notBoth ← not both
    guard notBoth (Failure.operandsText op)
  else
    let either ← compute (.bits .or a.isBool b.isBool)
    guard either (Failure.operandsText op)

def operation (op : Op) (a b : Dyn) : Gen Dyn := do
  checkOperands op a b
  match op with
  | .and => logical .and a b
  | .or => logical .or a b
  | .add => arith .add a b
  | .sub => arith .sub a b
  | .mul => arith .mul a b
  | .div =>
    let byZero ← compute (.compare .oeq b.num zero)
    guard byZero Failure.divisionText
    arith .div a b
  | .greater => compare .ogt a b
  | .less => compare .olt a b
  | .equal => compare .oeq a b
  | .unknown symbol => fail (.defect (.unknownOp symbol))

def expression (scope : Scope Slot) : Expr → Gen Dyn
  | .bool b => return ⟨.bit true, if b then .double 1 else zero⟩
  | .number x => return ofNumber (.double x)
  | .variable name => do
    match ← resolve scope name with
    | none => return ofNumber zero
    | some (isBool, num) =>
      let isBool ← compute (.load .i1 isBool)
      let num ← compute (.load .double num)
      return ⟨isBool, num⟩
  | .binary op l r => do
    let a ← expression scope l
    let b ← expression scope r
    operation op a b
  | .hole => fail (.defect .exprHole)

/-- The truth of a test as a bit. -/
def condition (scope : Scope Slot) (construct : Construct) (e : Expr) : Gen Operand := do
  let v ← expression scope e
  let wrong ← not v.isBool
  guard wrong (Failure.testText construct)
  compute (.compare .one v.num zero)

/-- Slots for the names that a block declares. -/
def newTable (table : Dict Slot) : List String → Gen (Dict Slot)
  | [] => return table
  | name :: rest => do
    let slot ← newSlot name
    newTable (table.insert name slot) rest

def store (ty : Ty) (value target : Operand) : Gen Unit := emit (.act (.store ty value target))

/-- Clears the bound flags of some slots. -/
def clear : List Slot → Gen Unit
  | [] => return ()
  | slot :: rest => do
    store .i1 (.bit false) slot.bound
    clear rest

/-- Enters a block: its slots are there and none is bound. -/
def openScope (scope : Scope Slot) (body : Block) : Gen (Scope Slot) := do
  let table ← newTable Dict.empty (Block.declarations body)
  clear table.values
  return table :: scope

mutual

def statement (scope : Scope Slot) : Stmt → Gen Unit
  | .declare name e => do
    let v ← expression scope e
    match scope.own? name with
    | none => fail (.noSlot name)
    | some slot =>
      let bound ← compute (.load .i1 slot.bound)
      guard bound (Failure.redeclaredText name)
      store .i1 v.isBool slot.isBool
      store .double v.num slot.num
      store .i1 (.bit true) slot.bound
  | .assign name e => do
    let v ← expression scope e
    match ← resolve scope name with
    | none => return ()
    | some (isBool, num) =>
      store .i1 v.isBool isBool
      store .double v.num num
  | .branch test yes no => do
    let bit ← condition scope .branch test
    let thenLabel ← newLabel "if.then"
    let elseLabel ← newLabel "if.else"
    let endLabel ← newLabel "if.end"
    emit (.jump (.branch bit thenLabel elseLabel))
    emit (.label thenLabel)
    let inner ← openScope scope yes
    statements inner yes
    emit (.jump (.goto endLabel))
    emit (.label elseLabel)
    match no with
    | none => pure ()
    | some no =>
      let inner ← openScope scope no
      statements inner no
    emit (.jump (.goto endLabel))
    emit (.label endLabel)
  | .loop test body => do
    let inner ← openScope scope body
    let testLabel ← newLabel "while.test"
    let bodyLabel ← newLabel "while.body"
    let endLabel ← newLabel "while.end"
    emit (.jump (.goto testLabel))
    emit (.label testLabel)
    let bit ← condition scope .loop test
    emit (.jump (.branch bit bodyLabel endLabel))
    emit (.label bodyLabel)
    statements inner body
    emit (.jump (.goto testLabel))
    emit (.label endLabel)
  | .print e => do
    let v ← expression scope e
    emit (.act (.print v.isBool v.num))
  | .eval e => do
    let _ ← expression scope e
  | .result e => do
    let _ ← expression scope e
    emit (.jump (.goto done))
    let after ← newLabel "after.return"
    emit (.label after)
  | .hole => fail (.defect .stmtHole)

def statements (scope : Scope Slot) : List Stmt → Gen Unit
  | [] => return ()
  | s :: rest => do
    statement scope s
    statements scope rest

end

/-- The body of a program, from its first block to the end. -/
def body (program : Block) : Gen Label := do
  let start ← newLabel "body"
  emit (.label start)
  let scope ← openScope [] program
  statements scope program
  emit (.jump (.goto done))
  return start

def Slot.cells (s : Slot) : List Cell := [⟨s, .bound⟩, ⟨s, .isBool⟩, ⟨s, .num⟩]

/-- The whole program as a function. All storage is reserved before its body starts. -/
def assemble (e : Emitted Label) : Function where
  result := some .i32
  name := "main"
  params := []
  lines :=
    .label (.plain "entry") :: (e.slots.flatMap Slot.cells).map .reserve ++
    .jump (.goto e.value) :: .label done :: .jump (.ret (some 0)) :: e.lines

def lower (program : Block) : Except LowerError Function :=
  (body program).run {} |>.map assemble

end LetWhile.Code
