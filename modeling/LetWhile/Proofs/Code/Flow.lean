import LetWhile.Proofs.Code.Emission

/-!
The shape of emitted code. A line reads registers of a window that ends with the last register that
was set; a jump around a trap keeps the window, every other jump starts a new one. Labels are used
up in order, and no label is jumped to more often than its stem says.

* `Flows`      the grammar of emitted lines, from one place inside a block to another
* `Labelled`   which labels some lines have and how often they jump to them
* `Straight`   code of expressions, which keeps the window
* `Fragment`   code of statements

Main results: `expression_straight` and `statements_fragment`.
-/
namespace LetWhile.Code

def Instr.operands : Instr → List Operand
  | .alloca _ => []
  | .load _ p => [p]
  | .select _ test yes no => [test, yes, no]
  | .bits _ a b | .add a b | .atLeast a b | .compare _ a b | .arith _ a b => [a, b]
  | .toDouble bit => [bit]
  | .first _ p => [p]
  | .printf format a => [format, a]
  | .snprintf p _ format precision v => [p, format, precision, v]
  | .strtod p => [p]

def Instr.isAlloca : Instr → Bool
  | .alloca _ => true
  | _ => false

def Effect.operands : Effect → List Operand
  | .store _ v p => [v, p]
  | .print isBool num => [isBool, num]
  | .trap message => [message]
  | .exit _ => []

def Jump.operands : Jump → List Operand
  | .branch test _ _ => [test]
  | _ => []

def Jump.targets : Jump → List Label
  | .goto l => [l]
  | .branch _ yes no => [yes, no]
  | _ => []

def Line.operands : Line → List Operand
  | .set _ i => i.operands
  | .act e => e.operands
  | .jump j => j.operands
  | _ => []

def Line.label? : Line → Option Label
  | .label l => some l
  | _ => none

def Line.targets : Line → List Label
  | .jump j => j.targets
  | _ => []

def labels (lines : List Line) : List Label := lines.filterMap Line.label?

def targets (lines : List Line) : List Label := lines.flatMap Line.targets

@[simp] theorem labels_append (a b : List Line) : labels (a ++ b) = labels a ++ labels b :=
  List.filterMap_append

@[simp] theorem targets_append (a b : List Line) : targets (a ++ b) = targets a ++ targets b :=
  List.flatMap_append

@[simp] theorem labels_nil : labels [] = [] := rfl

@[simp] theorem targets_nil : targets [] = [] := rfl

@[simp] theorem labels_label (l : Label) (rest : List Line) :
    labels (.label l :: rest) = l :: labels rest := rfl

@[simp] theorem labels_reserve (c : Cell) (rest : List Line) :
    labels (.reserve c :: rest) = labels rest := rfl

@[simp] theorem labels_set (r : Nat) (i : Instr) (rest : List Line) :
    labels (.set r i :: rest) = labels rest := rfl

@[simp] theorem labels_act (e : Effect) (rest : List Line) :
    labels (.act e :: rest) = labels rest := rfl

@[simp] theorem labels_jump (j : Jump) (rest : List Line) :
    labels (.jump j :: rest) = labels rest := rfl

@[simp] theorem targets_label (l : Label) (rest : List Line) :
    targets (.label l :: rest) = targets rest := rfl

@[simp] theorem targets_set (r : Nat) (i : Instr) (rest : List Line) :
    targets (.set r i :: rest) = targets rest := rfl

@[simp] theorem targets_act (e : Effect) (rest : List Line) :
    targets (.act e :: rest) = targets rest := rfl

@[simp] theorem targets_jump (j : Jump) (rest : List Line) :
    targets (.jump j :: rest) = j.targets ++ targets rest := rfl

/-- What a line may read: constants, storage of known slots, and the registers from `lo` up to
`hi`. -/
def Ready (known : Slot → Prop) (lo hi : Nat) : Operand → Prop
  | .bit _ | .double _ => True
  | .cell c => known c.slot
  | .reg r => lo ≤ r ∧ r < hi
  | _ => False

section

variable {known : Slot → Prop} {lo hi : Nat}

@[simp] theorem ready_bit (b : Bool) : Ready known lo hi (.bit b) := trivial

@[simp] theorem ready_double (x : Float) : Ready known lo hi (.double x) := trivial

@[simp] theorem ready_reg (r : Nat) : Ready known lo hi (.reg r) ↔ lo ≤ r ∧ r < hi := Iff.rfl

@[simp] theorem ready_bound (slot : Slot) : Ready known lo hi slot.bound ↔ known slot := Iff.rfl

@[simp] theorem ready_isBool (slot : Slot) : Ready known lo hi slot.isBool ↔ known slot := Iff.rfl

@[simp] theorem ready_num (slot : Slot) : Ready known lo hi slot.num ↔ known slot := Iff.rfl

end

theorem Ready.mono {known : Slot → Prop} {lo hi hi' : Nat} {o : Operand}
    (h : Ready known lo hi o) (le : hi ≤ hi') : Ready known lo hi' o := by
  cases o with
  | reg r => exact ⟨h.1, Nat.lt_of_lt_of_le h.2 le⟩
  | _ => exact h

/-- Lines that lead from inside a block, where the registers from `lo` up to `hi` may be read, to
inside a block where those from `lo'` up to `hi'` may be. -/
inductive Flows (known : Slot → Prop) : Nat → Nat → List Line → Nat → Nat → Prop where
  | nil {lo hi} : Flows known lo hi [] lo hi
  | set {lo hi i rest lo' hi'} (plain : i.isAlloca = false)
      (ready : ∀ o ∈ i.operands, Ready known lo hi o)
      (flows : Flows known lo (hi + 1) rest lo' hi') :
      Flows known lo hi (.set hi i :: rest) lo' hi'
  | act {lo hi e rest lo' hi'} (ready : ∀ o ∈ e.operands, Ready known lo hi o)
      (flows : Flows known lo hi rest lo' hi') :
      Flows known lo hi (.act e :: rest) lo' hi'
  | trap {lo hi message made rest lo' hi'} (flows : Flows known lo hi rest lo' hi') :
      Flows known lo hi (trapLines message made ++ rest) lo' hi'
  | guard {lo hi failed message made rest lo' hi'} (ready : Ready known lo hi failed)
      (flows : Flows known lo hi rest lo' hi') :
      Flows known lo hi (guardLines failed message made ++ rest) lo' hi'
  | jump {lo hi j l rest lo' hi'} (ready : ∀ o ∈ j.operands, Ready known lo hi o)
      (flows : Flows known hi hi rest lo' hi') :
      Flows known lo hi (.jump j :: .label l :: rest) lo' hi'

theorem Flows.append {known : Slot → Prop} {lo hi lo' hi' lo'' hi'' : Nat} {a b : List Line}
    (first : Flows known lo hi a lo' hi') (second : Flows known lo' hi' b lo'' hi'') :
    Flows known lo hi (a ++ b) lo'' hi'' := by
  induction first with
  | nil => exact second
  | set plain ready _ ih => exact .set plain ready (ih second)
  | act ready _ ih => exact .act ready (ih second)
  | trap _ ih => rw [List.append_assoc]; exact .trap (ih second)
  | guard ready _ ih => rw [List.append_assoc]; exact .guard ready (ih second)
  | jump ready _ ih => exact .jump ready (ih second)

/-- The first words of the labels. -/
def stems : List String :=
  ["body", "trap", "ok", "dead", "if.then", "if.else", "if.end", "while.test", "while.body",
    "while.end", "after.return"]

/-- How many jumps to a label there may be: none into dead code, one past a trap. -/
def Label.arrivals : Label → Nat
  | .plain _ => 2
  | .numbered stem _ => if stem = "dead" then 0 else if stem = "ok" then 1 else 2

theorem Label.jumps_le_arrivals (k : Nat) (l' : Label) (h : k ≤ l'.arrivals) (l : Label) :
    (k * if l' = l then 1 else 0) ≤ l.arrivals * if l' = l then 1 else 0 := by
  split
  · rename_i here
    rw [← here]
    omega
  · simp

/-- Lines with exactly the labels that are numbered above `made` and up to `made'`, each once, and
with no more jumps to them than allowed. All other jumps go to the end. -/
structure Labelled (made : Nat) (lines : List Line) (made' : Nat) : Prop where
  le : made ≤ made'
  once : ∀ i, ((labels lines).map Label.rank).count i = if made < i ∧ i ≤ made' then 1 else 0
  stems : ∀ l ∈ labels lines, ∃ stem ∈ stems, l = .numbered stem l.rank
  arrivals : ∀ l, l ≠ done → (targets lines).count l ≤ l.arrivals * (labels lines).count l

theorem Labelled.plain {lines : List Line} (noLabels : labels lines = [])
    (noTargets : targets lines = []) (made : Nat) : Labelled made lines made where
  le := Nat.le_refl made
  once i := by
    have : ¬(made < i ∧ i ≤ made) := by omega
    simp [noLabels, this]
  stems l h := by simp [noLabels] at h
  arrivals l _ := by simp [noTargets]

theorem Labelled.append {m m' m'' : Nat} {a b : List Line} (first : Labelled m a m')
    (second : Labelled m' b m'') : Labelled m (a ++ b) m'' where
  le := Nat.le_trans first.le second.le
  once i := by
    have le₁ := first.le
    have le₂ := second.le
    rw [labels_append, List.map_append, List.count_append, first.once, second.once]
    grind
  stems l h := by
    rw [labels_append, List.mem_append] at h
    exact h.elim (first.stems l) (second.stems l)
  arrivals l hl := by
    have h₁ := first.arrivals l hl
    have h₂ := second.arrivals l hl
    rw [labels_append, targets_append, List.count_append, List.count_append, Nat.mul_add]
    omega

theorem labelled_trapLines (message : String) (made : Nat) :
    Labelled made (trapLines message made) (made + 1) where
  le := by omega
  once i := by
    simp only [trapLines, labels_act, labels_jump, labels_label, labels_nil, List.map_cons,
      List.map_nil, Label.rank, List.count_singleton, beq_iff_eq]
    grind
  stems l h := by
    simp only [trapLines, labels_act, labels_jump, labels_label, labels_nil,
      List.mem_singleton] at h
    exact ⟨"dead", by decide, by simp [h, Label.rank]⟩
  arrivals l _ := by simp [trapLines, Jump.targets]

theorem labelled_guardLines (failed : Operand) (message : String) (made : Nat) :
    Labelled made (guardLines failed message made) (made + 2) where
  le := by omega
  once i := by
    simp only [guardLines, labels_act, labels_jump, labels_label, labels_nil, List.map_cons,
      List.map_nil, Label.rank, List.count_cons, List.count_nil, beq_iff_eq]
    grind
  stems l h := by
    simp only [guardLines, labels_act, labels_jump, labels_label, labels_nil, List.mem_cons,
      List.not_mem_nil, or_false] at h
    obtain rfl | rfl := h
    · exact ⟨"trap", by decide, rfl⟩
    · exact ⟨"ok", by decide, rfl⟩
  arrivals l _ := by
    simp only [guardLines, targets_jump, targets_label, targets_act, targets_nil, labels_jump,
      labels_label, labels_act, labels_nil, Jump.targets, List.append_nil, List.count_cons,
      List.count_nil, beq_iff_eq, Nat.mul_add]
    have h₁ := Label.jumps_le_arrivals 1 (.numbered "trap" (made + 1)) (by simp [Label.arrivals]) l
    have h₂ := Label.jumps_le_arrivals 1 (.numbered "ok" (made + 2)) (by simp [Label.arrivals]) l
    omega

/-- Code that keeps the registers from `lo` on in reach and makes no slot. -/
structure Straight {α : Type} (known : Slot → Prop) (lo : Nat) (c : Counters) (e : Emitted α) :
    Prop where
  flows : Flows known lo c.regs e.lines lo e.next.regs
  labelled : Labelled c.labels e.lines e.next.labels
  regs_le : c.regs ≤ e.next.regs
  noSlots : e.slots = []
  sameSlots : e.next.slots = c.slots

namespace Gen

variable {α β : Type} {known : Slot → Prop} {lo : Nat} {c : Counters}

/-- Every emission of `g` is straight code, and its value meets `Q` where the code ends. -/
def Keeps (known : Slot → Prop) (lo : Nat) (g : Gen α) (c : Counters) (Q : α → Nat → Prop) : Prop :=
  lo ≤ c.regs → ∀ e, g.run c = .ok e → Straight known lo c e ∧ Q e.value e.next.regs

theorem keeps_pure {a : α} {Q : α → Nat → Prop} (h : Q a c.regs) :
    Keeps known lo (pure a) c Q := by
  rintro _ _ ⟨⟩
  exact ⟨⟨.nil, .plain rfl rfl _, Nat.le_refl _, rfl, rfl⟩, h⟩

theorem Keeps.bind {g : Gen α} {k : α → Gen β} {P : α → Nat → Prop} {Q : β → Nat → Prop}
    (hg : Keeps known lo g c P)
    (hk : ∀ a d, c.regs ≤ d.regs → P a d.regs → Keeps known lo (k a) d Q) :
    Keeps known lo (g >>= k) c Q := by
  intro le e he
  obtain ⟨a, ha, b, hb, rfl⟩ := run_bind_eq_ok.1 he
  obtain ⟨first, hP⟩ := hg le a ha
  obtain ⟨second, hQ⟩ := hk a.value a.next first.regs_le hP (Nat.le_trans le first.regs_le) b hb
  refine ⟨?_, hQ⟩
  constructor
  · exact first.flows.append second.flows
  · exact first.labelled.append second.labelled
  · exact Nat.le_trans first.regs_le second.regs_le
  · simp [first.noSlots, second.noSlots]
  · exact second.sameSlots.trans first.sameSlots

theorem keeps_compute {i : Instr} (plain : i.isAlloca = false)
    (ready : ∀ o ∈ i.operands, Ready known lo c.regs o) :
    Keeps known lo (compute i) c fun v hi => Ready known lo hi v := by
  rintro le _ ⟨⟩
  exact ⟨⟨.set plain ready .nil, .plain rfl rfl _, Nat.le_succ _, rfl, rfl⟩, le,
    Nat.lt_succ_self _⟩

theorem keeps_store {ty : Ty} {value target : Operand} (hv : Ready known lo c.regs value)
    (ht : Ready known lo c.regs target) :
    Keeps known lo (store ty value target) c fun _ _ => True := by
  rintro _ _ ⟨⟩
  have ready : ∀ o ∈ (Effect.store ty value target).operands, Ready known lo c.regs o := by
    simp [Effect.operands, hv, ht]
  exact ⟨⟨.act ready .nil, .plain rfl rfl _, Nat.le_refl _, rfl, rfl⟩, trivial⟩

theorem keeps_trap (message : String) : Keeps known lo (trap message) c fun _ _ => True := by
  rintro _ _ ⟨⟩
  exact ⟨⟨.trap .nil, labelled_trapLines _ _, Nat.le_refl _, rfl, rfl⟩, trivial⟩

theorem keeps_guard {failed : Operand} (ready : Ready known lo c.regs failed)
    (message : String) : Keeps known lo (guard failed message) c fun _ _ => True := by
  rintro _ _ ⟨⟩
  exact ⟨⟨.guard ready .nil, labelled_guardLines _ _ _, Nat.le_refl _, rfl, rfl⟩, trivial⟩

end Gen

open Gen

variable {known : Slot → Prop} {lo : Nat} {c : Counters}

theorem keeps_not {bit : Operand} (ready : Ready known lo c.regs bit) :
    Keeps known lo (not bit) c fun v hi => Ready known lo hi v :=
  keeps_compute rfl (by simp [Instr.operands, ready])

structure Found.Ready (known : Slot → Prop) (lo hi : Nat) (found : Found) : Prop where
  bound : Code.Ready known lo hi found.bound
  isBool : Code.Ready known lo hi found.isBool
  num : Code.Ready known lo hi found.num

theorem keeps_prefer {found : Found} {slot : Slot} (ready : found.Ready known lo c.regs)
    (reserved : known slot) :
    Keeps known lo (prefer found slot) c fun f hi => f.Ready known lo hi := by
  apply Keeps.bind (keeps_compute rfl (by simp [Instr.operands, reserved]))
  intro bound d hd hb
  have hr := ready.isBool.mono hd
  apply Keeps.bind (keeps_compute rfl (by simp [Instr.operands, reserved, hb, hr]))
  intro isBool d₂ hd₂ hi
  have hb₂ := hb.mono hd₂
  have hr₂ := ready.num.mono (Nat.le_trans hd hd₂)
  apply Keeps.bind (keeps_compute rfl (by simp [Instr.operands, reserved, hb₂, hr₂]))
  intro num d₃ hd₃ hn
  have hb₃ := hb₂.mono hd₃
  have hr₃ := ready.bound.mono (Nat.le_trans hd (Nat.le_trans hd₂ hd₃))
  apply Keeps.bind (keeps_compute rfl (by simp [Instr.operands, hb₃, hr₃]))
  intro either d₄ hd₄ he
  exact keeps_pure ⟨he, (hi.mono hd₃).mono hd₄, hn.mono hd₄⟩

theorem keeps_foldlM_prefer {slots : List Slot} {found : Found}
    (ready : found.Ready known lo c.regs) (reserved : ∀ slot ∈ slots, known slot) :
    Keeps known lo (slots.foldlM prefer found) c fun f hi => f.Ready known lo hi := by
  induction slots generalizing found c with
  | nil => exact keeps_pure ready
  | cons slot rest ih =>
    rw [List.foldlM_cons]
    apply Keeps.bind (keeps_prefer ready (reserved slot List.mem_cons_self))
    intro nearer d _ hn
    exact ih hn fun s hs => reserved s (List.mem_cons_of_mem _ hs)

/-- Everything a name may stand for is known. -/
def Scope.Within (scope : Scope Slot) (known : Slot → Prop) : Prop :=
  ∀ name, ∀ slot ∈ scope.candidates name, known slot

theorem keeps_resolve {scope : Scope Slot} (within : Scope.Within scope known) (name : String) :
    Keeps known lo (resolve scope name) c fun found hi =>
      ∀ p ∈ found, Ready known lo hi p.1 ∧ Ready known lo hi p.2 := by
  unfold resolve
  cases hc : (scope.candidates name).reverse with
  | nil =>
    apply Keeps.bind (keeps_trap _)
    intro _ _ _ _
    exact keeps_pure (by simp)
  | cons slot nearer =>
    have reserved : ∀ s ∈ slot :: nearer, known s := by
      intro s hs
      rw [← hc, List.mem_reverse] at hs
      exact within name s hs
    have here := reserved slot List.mem_cons_self
    apply Keeps.bind (keeps_compute rfl (by simp [Instr.operands, here]))
    intro bound d hd hb
    have outermost : Found.Ready known lo d.regs ⟨bound, slot.isBool, slot.num⟩ :=
      ⟨hb, here, here⟩
    apply Keeps.bind (keeps_foldlM_prefer outermost fun s hs =>
      reserved s (List.mem_cons_of_mem _ hs))
    intro found d₂ hd₂ hf
    apply Keeps.bind (keeps_not hf.bound)
    intro unbound d₃ hd₃ hu
    apply Keeps.bind (keeps_guard hu _)
    intro _ d₄ hd₄ _
    apply keeps_pure
    simp only [Option.mem_some_iff]
    rintro _ rfl
    exact ⟨(hf.isBool.mono hd₃).mono hd₄, (hf.num.mono hd₃).mono hd₄⟩

structure Dyn.Ready (known : Slot → Prop) (lo hi : Nat) (v : Dyn) : Prop where
  isBool : Code.Ready known lo hi v.isBool
  num : Code.Ready known lo hi v.num

theorem Dyn.Ready.mono {hi hi' : Nat} {v : Dyn} (h : v.Ready known lo hi) (le : hi ≤ hi') :
    v.Ready known lo hi' :=
  ⟨h.isBool.mono le, h.num.mono le⟩

theorem keeps_ofBit {bit : Operand} (ready : Ready known lo c.regs bit) :
    Keeps known lo (ofBit bit) c fun v hi => v.Ready known lo hi := by
  apply Keeps.bind (keeps_compute rfl (by simp [Instr.operands, ready]))
  intro num d _ hn
  exact keeps_pure ⟨ready_bit true, hn⟩

theorem keeps_arith (op : FloatOp) {a b : Dyn} (ha : a.Ready known lo c.regs)
    (hb : b.Ready known lo c.regs) :
    Keeps known lo (arith op a b) c fun v hi => v.Ready known lo hi := by
  apply Keeps.bind (keeps_compute rfl (by simp [Instr.operands, ha.num, hb.num]))
  intro num d _ hn
  exact keeps_pure ⟨ready_bit false, hn⟩

theorem keeps_compare (test : FloatTest) {a b : Dyn} (ha : a.Ready known lo c.regs)
    (hb : b.Ready known lo c.regs) :
    Keeps known lo (compare test a b) c fun v hi => v.Ready known lo hi := by
  apply Keeps.bind (keeps_compute rfl (by simp [Instr.operands, ha.num, hb.num]))
  intro bit d _ hbit
  exact keeps_ofBit hbit

theorem keeps_logical (op : BitOp) {a b : Dyn} (ha : a.Ready known lo c.regs)
    (hb : b.Ready known lo c.regs) :
    Keeps known lo (logical op a b) c fun v hi => v.Ready known lo hi := by
  apply Keeps.bind (keeps_compute rfl (by simp [Instr.operands, ha.num, zero]))
  intro l d hd hl
  have hn := hb.num.mono hd
  apply Keeps.bind (keeps_compute rfl (by simp [Instr.operands, hn, zero]))
  intro r d₂ hd₂ hr
  have hl₂ := hl.mono hd₂
  apply Keeps.bind (keeps_compute rfl (by simp [Instr.operands, hl₂, hr]))
  intro bit d₃ _ hbit
  exact keeps_ofBit hbit

theorem keeps_checkOperands (op : Op) {a b : Dyn} (ha : a.Ready known lo c.regs)
    (hb : b.Ready known lo c.regs) :
    Keeps known lo (checkOperands op a b) c fun _ _ => True := by
  unfold checkOperands
  split
  · apply Keeps.bind (keeps_compute rfl (by simp [Instr.operands, ha.isBool, hb.isBool]))
    intro both d _ hboth
    apply Keeps.bind (keeps_not hboth)
    intro notBoth d₂ _ hnot
    exact keeps_guard hnot _
  · apply Keeps.bind (keeps_compute rfl (by simp [Instr.operands, ha.isBool, hb.isBool]))
    intro either d _ heither
    exact keeps_guard heither _

theorem keeps_operation (op : Op) {a b : Dyn} (ha : a.Ready known lo c.regs)
    (hb : b.Ready known lo c.regs) :
    Keeps known lo (operation op a b) c fun v hi => v.Ready known lo hi := by
  apply Keeps.bind (keeps_checkOperands op ha hb)
  intro _ d hd _
  have ha' := ha.mono hd
  have hb' := hb.mono hd
  cases op with
  | and | or => exact keeps_logical _ ha' hb'
  | add | sub | mul => exact keeps_arith _ ha' hb'
  | greater | less | equal => exact keeps_compare _ ha' hb'
  | div =>
    apply Keeps.bind (keeps_compute rfl (by simp [Instr.operands, hb'.num, zero]))
    intro byZero d₂ hd₂ hz
    apply Keeps.bind (keeps_guard hz _)
    intro _ d₃ hd₃ _
    exact keeps_arith _ ((ha'.mono hd₂).mono hd₃) ((hb'.mono hd₂).mono hd₃)
  | unknown symbol =>
    rintro _ _ ⟨⟩

/-- **The code of an expression is straight**, and its value may be read where the code ends. -/
theorem expression_straight {scope : Scope Slot} (within : Scope.Within scope known) (e : Expr) :
    Keeps known lo (expression scope e) c fun v hi => v.Ready known lo hi := by
  induction e generalizing c with
  | bool b =>
    apply keeps_pure
    exact ⟨ready_bit true, by cases b <;> simp [zero]⟩
  | number x => exact keeps_pure ⟨ready_bit false, ready_double x⟩
  | «variable» name =>
    apply Keeps.bind (keeps_resolve within name)
    intro found d _ hf
    cases found with
    | none => exact keeps_pure ⟨ready_bit false, ready_double 0⟩
    | some cells =>
      obtain ⟨hisBool, hnum⟩ := hf cells rfl
      apply Keeps.bind (keeps_compute rfl (by simp [Instr.operands, hisBool]))
      intro isBool d₂ hd₂ hi
      have hnum₂ := hnum.mono hd₂
      apply Keeps.bind (keeps_compute rfl (by simp [Instr.operands, hnum₂]))
      intro num d₃ hd₃ hn
      exact keeps_pure ⟨hi.mono hd₃, hn⟩
  | binary op l r ihl ihr =>
    apply Keeps.bind ihl
    intro a d _ ha
    apply Keeps.bind ihr
    intro b d₂ hd₂ hb
    exact keeps_operation op (ha.mono hd₂) hb
  | hole => rintro _ _ ⟨⟩

theorem condition_straight {scope : Scope Slot} (within : Scope.Within scope known)
    (construct : Construct) (e : Expr) :
    Keeps known lo (condition scope construct e) c fun v hi => Ready known lo hi v := by
  apply Keeps.bind (expression_straight within e)
  intro v d _ hv
  apply Keeps.bind (keeps_not hv.isBool)
  intro wrong d₂ hd₂ hw
  apply Keeps.bind (keeps_guard hw _)
  intro _ d₃ hd₃ _
  have hn := (hv.num.mono hd₂).mono hd₃
  exact keeps_compute rfl (by simp [Instr.operands, hn, zero])

end LetWhile.Code
