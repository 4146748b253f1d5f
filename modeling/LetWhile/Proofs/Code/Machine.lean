import LetWhile.Code.Render
import LetWhile.Proofs.Code.Flow

/-!
Running block code. A machine has the lines of its block that are still to run. A line that cannot
run leaves it stuck: one that reads a register without a value, loads what was never stored or what
has another type, falls through into the next block, or is said to be unreachable. Instructions
that only the functions around a program have are given no meaning.

Comparisons and operations on doubles are those of the language.
-/
namespace LetWhile.Code

/-- What a register or a cell can hold. -/
inductive Word where
  | bit (b : Bool)
  | double (x : Float)
  | pointer (c : Cell)
  deriving DecidableEq

def Word.ty : Word → Ty
  | .bit _ => .i1
  | .double _ => .double
  | .pointer c => .pointer c.part.ty

/-- A cell is there once it is reserved; what it holds is known once something was stored. -/
inductive Storage where
  | absent
  | blank
  | holding (w : Word)
  deriving DecidableEq

/-- Registers, storage, and what was printed: kinds and numbers, the latest first. -/
structure Data where
  regs : Nat → Option Word
  memory : Cell → Storage
  output : List (Bool × Float)

namespace Data

/-- Nothing is there yet. -/
def blank : Data := ⟨fun _ => none, fun _ => .absent, []⟩

def setReg (d : Data) (r : Nat) (w : Word) : Data :=
  { d with regs := fun r' => if r' = r then some w else d.regs r' }

def put (d : Data) (c : Cell) (s : Storage) : Data :=
  { d with memory := fun c' => if c' = c then s else d.memory c' }

def print (d : Data) (isBool : Bool) (num : Float) : Data :=
  { d with output := (isBool, num) :: d.output }

@[simp] theorem put_memory (d : Data) (c c' : Cell) (s : Storage) :
    (d.put c s).memory c' = if c' = c then s else d.memory c' := rfl

theorem put_reserved {d : Data} {c : Cell} (h : d.memory c ≠ .absent) (target : Cell) (w : Word) :
    (d.put target (.holding w)).memory c ≠ .absent := by
  rw [put_memory]
  split
  · simp
  · exact h

end Data

def FloatTest.holds : FloatTest → Float → Float → Bool
  | .oeq, a, b => a == b
  | .one, a, b => decide (a < b) || decide (b < a)
  | .ogt, a, b => decide (b < a)
  | .olt, a, b => decide (a < b)
  | .uno, a, b => !(a == a) || !(b == b)

def FloatOp.apply : FloatOp → Float → Float → Float
  | .add, a, b => a + b
  | .sub, a, b => a - b
  | .mul, a, b => a * b
  | .div, a, b => a / b

def BitOp.apply : BitOp → Bool → Bool → Bool
  | .and, a, b => a && b
  | .or, a, b => a || b
  | .xor, a, b => a ^^ b

def Operand.eval (d : Data) : Operand → Option Word
  | .bit b => some (.bit b)
  | .double x => some (.double x)
  | .cell c => some (.pointer c)
  | .reg r => d.regs r
  | _ => none

/-- The value of an instruction. -/
def Instr.eval (d : Data) : Instr → Option Word
  | .load ty p =>
    match p.eval d with
    | some (.pointer c) =>
      match d.memory c with
      | .holding w => if w.ty = ty then some w else none
      | _ => none
    | _ => none
  | .select ty test yes no =>
    match test.eval d, yes.eval d, no.eval d with
    | some (.bit t), some a, some b =>
      if a.ty = ty ∧ b.ty = ty then some (if t then a else b) else none
    | _, _, _ => none
  | .bits op a b =>
    match a.eval d, b.eval d with
    | some (.bit a), some (.bit b) => some (.bit (op.apply a b))
    | _, _ => none
  | .compare test a b =>
    match a.eval d, b.eval d with
    | some (.double a), some (.double b) => some (.bit (test.holds a b))
    | _, _ => none
  | .arith op a b =>
    match a.eval d, b.eval d with
    | some (.double a), some (.double b) => some (.double (op.apply a b))
    | _, _ => none
  | .toDouble bit =>
    match bit.eval d with
    | some (.bit b) => some (.double (if b then 1 else 0))
    | _ => none
  | _ => none

structure Machine where
  code : List Line
  data : Data

/-- What a step leads to. -/
inductive Next where
  | goes (m : Machine)
  | returned (status : Option Nat)
  | trapped (message : String)
  | stuck

/-- The lines behind a label. -/
def behind (l : Label) : List Line → Option (List Line)
  | [] => none
  | x :: rest => if x = .label l then some rest else behind l rest

/-- Goes to a block of the function. -/
def Function.goto (f : Function) (l : Label) (d : Data) : Next :=
  match behind l f.lines with
  | some code => .goes ⟨code, d⟩
  | none => .stuck

def Effect.step (d : Data) (rest : List Line) : Effect → Next
  | .store ty v p =>
    match v.eval d, p.eval d with
    | some w, some (.pointer c) =>
      if w.ty = ty ∧ c.part.ty = ty ∧ d.memory c ≠ .absent then .goes ⟨rest, d.put c (.holding w)⟩
      else .stuck
    | _, _ => .stuck
  | .print isBool num =>
    match isBool.eval d, num.eval d with
    | some (.bit b), some (.double x) => .goes ⟨rest, d.print b x⟩
    | _, _ => .stuck
  | .trap (.text message) => .trapped message
  | _ => .stuck

def Jump.step (f : Function) (d : Data) : Jump → Next
  | .goto l => f.goto l d
  | .branch test yes no =>
    match test.eval d with
    | some (.bit b) => f.goto (if b then yes else no) d
    | _ => .stuck
  | .ret status => .returned status
  | .unreachable => .stuck

def Machine.step (f : Function) (m : Machine) : Next :=
  match m.code with
  | [] => .stuck
  | .label _ :: _ => .stuck
  | .reserve c :: rest => .goes ⟨rest, m.data.put c .blank⟩
  | .set r i :: rest =>
    match i.eval m.data with
    | some w => .goes ⟨rest, m.data.setReg r w⟩
    | none => .stuck
  | .act e :: rest => e.step m.data rest
  | .jump j :: _ => j.step f m.data

/-- So many steps lead from one machine to the other. -/
inductive Steps (f : Function) : Nat → Machine → Machine → Prop where
  | none {m} : Steps f 0 m m
  | more {n m m' m''} (step : m.step f = .goes m') (rest : Steps f n m' m'') :
      Steps f (n + 1) m m''

/-- The machine in front of the entry of a function. -/
def Function.boot (f : Function) : Machine :=
  ⟨(behind (.plain "entry") f.lines).getD [], .blank⟩

/-- A run of the function from its start ends in this way, after it has printed this. -/
def Function.Ends (f : Function) (ending : Next) (printed : List (Bool × Float)) : Prop :=
  ∃ n m, Steps f n f.boot m ∧ m.step f = ending ∧ m.data.output.reverse = printed

/-- A run of the function never ends. -/
def Function.Diverges (f : Function) : Prop := ∀ n, ∃ m, Steps f n f.boot m

section

variable {f : Function} {m m' m'' : Machine} {i n : Nat}

theorem Steps.one (step : m.step f = .goes m') : Steps f 1 m m' := .more step .none

theorem Steps.append (first : Steps f i m m') (second : Steps f n m' m'') :
    Steps f (i + n) m m'' := by
  induction first with
  | none => simpa using second
  | more step _ ih =>
    rw [Nat.add_right_comm]
    exact .more step (ih second)

/-- A run of many steps has all shorter runs in it. -/
theorem Steps.take (run : Steps f n m m'') (le : i ≤ n) : ∃ m', Steps f i m m' := by
  induction run generalizing i with
  | none =>
    obtain rfl := Nat.le_zero.1 le
    exact ⟨_, .none⟩
  | more step _ ih =>
    cases i with
    | zero => exact ⟨_, .none⟩
    | succ i =>
      obtain ⟨m', run⟩ := ih (Nat.le_of_succ_le_succ le)
      exact ⟨m', .more step run⟩

/-- A machine does one thing only. -/
theorem Steps.unique (first : Steps f n m m') (second : Steps f n m m'') : m' = m'' := by
  induction first with
  | none =>
    cases second
    rfl
  | more step _ ih =>
    cases second with
    | more step' rest =>
      obtain rfl := Next.goes.inj (step.symm.trans step')
      exact ih rest

theorem Steps.last (run : Steps f (n + 1) m m'') :
    ∃ m', Steps f n m m' ∧ m'.step f = .goes m'' := by
  induction n generalizing m with
  | zero =>
    cases run with
    | more step rest =>
      cases rest
      exact ⟨m, .none, step⟩
  | succ n ih =>
    cases run with
    | more step rest =>
      obtain ⟨m', run, last⟩ := ih rest
      exact ⟨m', .more step run, last⟩

/-- No run goes further than one that has ended. -/
theorem Steps.le_of_ended (run : Steps f n m m') (ended : ∀ next, m'.step f ≠ .goes next)
    (other : Steps f i m m'') : i ≤ n := by
  rw [← Nat.not_lt]
  intro longer
  obtain ⟨next, beyond⟩ := other.take longer
  obtain ⟨last, shorter, step⟩ := beyond.last
  obtain rfl := run.unique shorter
  exact ended next step

theorem Function.Ends.not_diverges {ending : Next} {printed : List (Bool × Float)}
    (h : f.Ends ending printed) (ended : ∀ m, ending ≠ .goes m) : ¬ f.Diverges := by
  intro diverges
  obtain ⟨n, m, run, rfl, _⟩ := h
  obtain ⟨m', longer⟩ := diverges (n + 1)
  exact Nat.not_succ_le_self n (run.le_of_ended ended longer)

theorem Steps.goto {l : Label} {d : Data} {more : List Line} (arrives : f.goto l d = .goes m) :
    Steps f 1 ⟨.jump (.goto l) :: more, d⟩ m := .one arrives

theorem Steps.branch {test : Operand} {yes no : Label} {b : Bool} {d : Data} {more : List Line}
    (bit : test.eval d = some (.bit b)) (arrives : f.goto (if b then yes else no) d = .goes m) :
    Steps f 1 ⟨.jump (.branch test yes no) :: more, d⟩ m :=
  .one (by simpa [Machine.step, Jump.step, bit] using arrives)

end

theorem behind_of_notMem {before rest : List Line} {l : Label} (h : l ∉ labels before) :
    behind l (before ++ Line.label l :: rest) = some rest := by
  induction before with
  | nil => simp [behind]
  | cons x before ih =>
    have other : x ≠ .label l := by
      rintro rfl
      simp at h
    rw [List.cons_append, behind, if_neg other]
    apply ih
    cases x <;> simp_all

/-- Where no label stands twice, a jump arrives behind the label. -/
theorem Function.goto_place {f : Function} (nodup : (labels f.lines).Nodup) {rest : List Line}
    {l : Label} (place : .label l :: rest <:+ f.lines) (d : Data) :
    f.goto l d = .goes ⟨rest, d⟩ := by
  obtain ⟨before, split⟩ := place
  have above : l ∉ labels before := by
    rw [← split, labels_append, labels_label, List.nodup_append] at nodup
    intro there
    exact nodup.2.2 l there l List.mem_cons_self rfl
  rw [goto, ← split, behind_of_notMem above]

end LetWhile.Code
