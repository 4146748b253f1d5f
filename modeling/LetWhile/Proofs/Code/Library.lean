import LetWhile.Code.Builtin
import LetWhile.Proofs.Code.Machine
import LetWhile.Proofs.Decimal.Places

/-!
Running the functions that a program brings along. They have storage of their own, call functions
that write and read numbers, and print. What those functions do is a parameter, `Library`;
`Library.Exact` says that they round correctly.

A run goes from block to block: `Data.through` does all the lines of a block, and a block that
cannot go on leaves the run stuck. Instructions that only the function of a program has are given no
meaning.
-/
namespace LetWhile.Code

/-- How numbers are written with a number of places, and read. -/
structure Library where
  fixed : Int → Float → String
  read : String → Float

/-- Numbers are rounded correctly, both to a number of places and to a double. -/
structure Library.Exact (lib : Library) : Prop where
  fixed : ∀ (p : Nat) (x : Float), x.isFinite = true →
    lib.fixed p x = (Decimal.fixed p (Double.code x)).spelled (Double.negative x)
  read : ∀ (sign : Bool) (d : Decimal),
    lib.read (d.spelled sign) = Double.ofCode sign (min Double.infinity
      (Double.nearest (d.digits * (Decimal.powerOfTen d.exponent).1 * Double.one)
        (Decimal.powerOfTen d.exponent).2))

/-- A text without its sign. -/
def unsigned : List Char → Bool × List Char
  | '-' :: rest => (true, rest)
  | digits => (false, digits)

theorem unsigned_spelled (sign : Bool) (d : Decimal) :
    unsigned (d.spelled sign).toList = (sign, d.positional) := by
  rw [Decimal.spelled, String.toList_ofList]
  cases sign with
  | true => rfl
  | false =>
    rw [if_neg Bool.false_ne_true]
    unfold unsigned
    split
    · rename_i rest minus
      have first : '-' ∈ d.positional := minus ▸ List.mem_cons_self
      rcases Decimal.plain_of_mem_positional first with digit | point
      · cases digit
      · cases point
    · rfl

/-- A library in exact arithmetic. -/
def Library.correct : Library where
  fixed p x := (Decimal.fixed p.toNat (Double.code x)).spelled (Double.negative x)
  read s :=
    let (sign, digits) := unsigned s.toList
    let (m, _) := Number.readMantissa false {} digits
    Double.ofCode sign (min Double.infinity (Double.nearest (m.value * Double.one) (10 ^ m.places)))

theorem Library.correct_exact : Library.correct.Exact where
  fixed _ _ _ := rfl
  read sign d := by
    obtain ⟨m, mantissa, value, places⟩ := d.readMantissa_positional
    simp only [correct, unsigned_spelled, mantissa, value, places]

namespace Builtin

/-- What a function does that can be seen: to write a number into storage of some size, and to
print. -/
inductive Event where
  | rendered (size : Nat) (text : String)
  | printed (text : String)
  deriving DecidableEq

/-- What a register or storage holds; storage has the number of the register that was set with it. -/
inductive Datum where
  | bit (b : Bool)
  | double (x : Float)
  | int (n : BitVec 32)
  | text (s : String)
  | storage (r : Nat)
  deriving DecidableEq

/-- The type of what can be stored. -/
def Datum.ty? : Datum → Option Ty
  | .bit _ => some .i1
  | .double _ => some .double
  | .int _ => some .i32
  | .text _ => some (.pointer .i8)
  | .storage _ => none

/-- Storage is known once something was stored. -/
structure Storage where
  ty : Ty
  content : Option Datum

/-- Parameters, registers, storage and the events, the latest first. -/
structure Data where
  params : String → Option Datum
  regs : Nat → Option Datum
  storage : Nat → Option Storage
  events : List Event

namespace Data

def set (d : Data) (r : Nat) (v : Datum) : Data :=
  { d with regs := fun r' => if r' = r then some v else d.regs r' }

def put (d : Data) (r : Nat) (s : Storage) : Data :=
  { d with storage := fun r' => if r' = r then some s else d.storage r' }

def emit (d : Data) (e : Event) : Data := { d with events := e :: d.events }

def read (d : Data) : Operand → Option Datum
  | .bit b => some (.bit b)
  | .double x => some (.double x)
  | .int n => some (.int (BitVec.ofNat 32 n))
  | .text s => some (.text s)
  | .param name => d.params name
  | .reg r => d.regs r
  | .cell _ | .null => none

/-- The text that a pointer leads to. -/
def text (d : Data) (o : Operand) : Option String :=
  match d.read o with
  | some (.text s) => some s
  | some (.storage r) =>
    match d.storage r with
    | some ⟨.array _ .i8, some (.text s)⟩ => some s
    | _ => none
  | _ => none

end Data

/-- The text in place of the first mark in a format. -/
def formatted (argument : List Char) : List Char → List Char
  | '%' :: 's' :: rest => argument ++ rest
  | c :: rest => c :: formatted argument rest
  | [] => []

/-- What storage of some size keeps of a text and its end, with one byte for each character. -/
def cut (size : Nat) (text : String) : String :=
  if text.utf8ByteSize < size then text else String.ofList (text.toList.take (size - 1))

/-- What an instruction does that sets this register, and the value it sets. -/
def perform (lib : Library) (r : Nat) (d : Data) : Instr → Option (Data × Datum)
  | .alloca ty => some (d.put r ⟨ty, none⟩, .storage r)
  | .load ty source =>
    match d.read source with
    | some (.storage s) =>
      match d.storage s with
      | some ⟨ty', some v⟩ => if ty' = ty then some (d, v) else none
      | _ => none
    | _ => none
  | .select ty test yes no =>
    match d.read test, d.read yes, d.read no with
    | some (.bit t), some a, some b =>
      if a.ty? = some ty ∧ b.ty? = some ty then some (d, if t then a else b) else none
    | _, _, _ => none
  | .bits op a b =>
    match d.read a, d.read b with
    | some (.bit a), some (.bit b) => some (d, .bit (op.apply a b))
    | _, _ => none
  | .add a b =>
    match d.read a, d.read b with
    | some (.int a), some (.int b) => some (d, .int (a + b))
    | _, _ => none
  | .atLeast a b =>
    match d.read a, d.read b with
    | some (.int a), some (.int b) => some (d, .bit (b.sle a))
    | _, _ => none
  | .compare test a b =>
    match d.read a, d.read b with
    | some (.double a), some (.double b) => some (d, .bit (test.holds a b))
    | _, _ => none
  | .first size array =>
    match d.read array with
    | some (.storage s) =>
      match d.storage s with
      | some ⟨ty, _⟩ => if ty = .array size .i8 then some (d, .storage s) else none
      | none => none
    | _ => none
  | .printf format argument =>
    match d.text format, d.text argument with
    | some f, some s =>
      let line := String.ofList (formatted s.toList f.toList)
      some (d.emit (.printed line), .int (BitVec.ofNat 32 line.length))
    | _, _ => none
  | .snprintf buffer size format precision value =>
    match d.read buffer, d.text format, d.read precision, d.read value with
    | some (.storage s), some "%.*f", some (.int p), some (.double x) =>
      match d.storage s with
      | some ⟨.array n .i8, _⟩ =>
        if size ≤ n then
          let text := lib.fixed p.toInt x
          some ((d.put s ⟨.array n .i8, some (.text (cut size text))⟩).emit (.rendered size text),
            .int (BitVec.ofNat 32 text.length))
        else none
      | _ => none
    | _, _, _, _ => none
  | .strtod text =>
    match d.text text with
    | some s => some (d, .double (lib.read s))
    | none => none
  | .arith _ _ _ | .toDouble _ => none

/-- A value goes into storage of its type. -/
def store (d : Data) (ty : Ty) (value target : Operand) : Option Data :=
  match d.read value, d.read target with
  | some v, some (.storage s) =>
    match d.storage s with
    | some ⟨ty', _⟩ => if v.ty? = some ty ∧ ty' = ty then some (d.put s ⟨ty, some v⟩) else none
    | none => none
  | _, _ => none

/-- Where a block goes on; `none` at the end of the function. -/
def follow (d : Data) : Jump → Option (Option Label)
  | .goto l => some (some l)
  | .branch test yes no =>
    match d.read test with
    | some (.bit b) => some (some (if b then yes else no))
    | _ => none
  | .ret none => some none
  | .ret (some _) | .unreachable => none

/-- Does the lines of a block up to its jump. -/
def Data.through (lib : Library) (d : Data) : List Line → Option (Data × Option Label)
  | [] => none
  | .set r i :: rest =>
    match perform lib r d i with
    | some (d', v) => (d'.set r v).through lib rest
    | none => none
  | .act (.store ty value target) :: rest =>
    match store d ty value target with
    | some d' => d'.through lib rest
    | none => none
  | .jump j :: _ => (follow d j).map fun next => (d, next)
  | .label _ :: _ | .reserve _ :: _ | .act _ :: _ => none

/-- From a block on, the function runs to its end. -/
inductive Runs (lib : Library) (f : Function) : Label → Data → Data → Prop where
  | returns {l : Label} {d d' : Data} {code : List Line} (block : behind l f.lines = some code)
      (done : d.through lib code = some (d', none)) : Runs lib f l d d'
  | goes {l next : Label} {d d' d'' : Data} {code : List Line}
      (block : behind l f.lines = some code)
      (done : d.through lib code = some (d', some next)) (rest : Runs lib f next d' d'') :
      Runs lib f l d d''

theorem Runs.unique {lib : Library} {f : Function} {l : Label} {d e e' : Data}
    (run : Runs lib f l d e) (run' : Runs lib f l d e') : e' = e := by
  induction run with
  | returns block done =>
    cases run' with
    | returns block' done' =>
      cases block.symm.trans block'
      cases done.symm.trans done'
      rfl
    | goes block' done' =>
      cases block.symm.trans block'
      cases done.symm.trans done'
  | goes block done _ ih =>
    cases run' with
    | returns block' done' =>
      cases block.symm.trans block'
      cases done.symm.trans done'
    | goes block' done' rest' =>
      cases block.symm.trans block'
      cases done.symm.trans done'
      exact ih rest'

/-- The data before a call with these arguments. -/
def called (f : Function) (arguments : List Datum) : Data :=
  ⟨fun name => ((f.params.map Prod.snd).zip arguments).lookup name, fun _ => none, fun _ => none, []⟩

/-- A call of the function comes to its end after these events, the earliest first. -/
def Performs (lib : Library) (f : Function) (arguments : List Datum) (events : List Event) : Prop :=
  ∃ d, Runs lib f (.plain "entry") (called f arguments) d ∧ d.events.reverse = events

theorem Performs.unique {lib : Library} {f : Function} {arguments : List Datum}
    {events events' : List Event} (h : Performs lib f arguments events)
    (h' : Performs lib f arguments events') : events' = events := by
  obtain ⟨d, run, rfl⟩ := h
  obtain ⟨d', run', rfl⟩ := h'
  rw [run.unique run']

end Builtin

end LetWhile.Code
