import LetWhile.Eval
import LetWhile.Proofs.Code.Does
import LetWhile.Proofs.Code.Matching

/-!
The code of an expression computes its value, in two registers, or stops the program with the
beginning of the message of its failure. It stores nothing.

* `does_resolve`      looking up the slot that a name stands for
* `does_operation`    an operator on two values
* `does_expression`   an expression
* `does_condition`    a test
-/
namespace LetWhile

/-- What can be said of a failure before the values are known. -/
def Failure.notice : Failure → String
  | .undeclared name => undeclaredText name
  | .redeclared name => redeclaredText name
  | .typeMismatch op _ _ => operandsText op
  | .divisionByZero => divisionText
  | .notBoolean construct _ => testText construct
  | .writeFailed => "write failed"
  | .defect d => d.message

theorem Failure.message_eq_notice_append (failure : Failure) :
    ∃ more, failure.message = failure.notice ++ more := by
  cases failure with
  | typeMismatch op l r =>
    exact ⟨s!", got {l.variant.name} and {r.variant.name}", by
      simp [message, notice, toString, String.append_assoc]⟩
  | notBoolean construct v =>
    exact ⟨s!": got {v.variant.name}", by simp [message, notice, toString, String.append_assoc]⟩
  | _ => exact ⟨"", by simp [message, notice]⟩

namespace Code

open Gen

/-- An operand has this value, and will have it as long as the registers below `hi` stay. -/
structure Has (d : Data) (hi : Nat) (o : Operand) (w : Word) : Prop where
  below : ∀ r, o = .reg r → r < hi
  eval : o.eval d = some w

/-- Storage and output are as before. -/
structure Quiet (d d' : Data) : Prop where
  memory : d'.memory = d.memory
  output : d'.output = d.output

/-- The message of a stop is the notice of the failure, with which its own message begins. -/
structure Announces (message : String) (failure : Failure) : Prop where
  notice : message = failure.notice
  begins : ∃ more, failure.message = message ++ more

theorem announces_notice (failure : Failure) : Announces failure.notice failure :=
  ⟨rfl, failure.message_eq_notice_append⟩

section

variable {f : Function} {c : Counters} {d d' d'' : Data} {hi hi' : Nat} {o : Operand} {w : Word}
  {E : String → Data → Prop}

theorem Has.mono (h : Has d hi o w) (le : hi ≤ hi') (same : ∀ r < hi, d'.regs r = d.regs r) :
    Has d' hi' o w := by
  refine ⟨fun r hr => Nat.lt_of_lt_of_le (h.below r hr) le, ?_⟩
  rw [← h.eval]
  cases o with
  | reg r => exact same r (h.below r rfl)
  | _ => rfl

theorem has_bit (b : Bool) : Has d hi (.bit b) (.bit b) := ⟨by simp, rfl⟩

theorem has_double (x : Float) : Has d hi (.double x) (.double x) := ⟨by simp, rfl⟩

theorem has_bound (slot : Slot) : Has d hi slot.bound (.pointer ⟨slot, .bound⟩) :=
  ⟨by simp [Slot.bound], rfl⟩

theorem has_isBool (slot : Slot) : Has d hi slot.isBool (.pointer ⟨slot, .isBool⟩) :=
  ⟨by simp [Slot.isBool], rfl⟩

theorem has_num (slot : Slot) : Has d hi slot.num (.pointer ⟨slot, .num⟩) :=
  ⟨by simp [Slot.num], rfl⟩

theorem Quiet.refl (d : Data) : Quiet d d := ⟨rfl, rfl⟩

theorem Quiet.trans (h : Quiet d d') (h' : Quiet d' d'') : Quiet d d'' :=
  ⟨h'.memory.trans h.memory, h'.output.trans h.output⟩

theorem does_value {i : Instr} (value : i.eval d = some w) :
    Does f (compute i) c d (fun o hi d' => Quiet d d' ∧ Has d' hi o w) E := by
  apply does_compute value
  refine ⟨⟨rfl, rfl⟩, ?_, by simp [Operand.eval, Data.setReg]⟩
  rintro r ⟨⟩
  exact Nat.lt_succ_self _

theorem does_load {ty : Ty} {p : Operand} {cell : Cell} (hp : Has d c.regs p (.pointer cell))
    (held : d.memory cell = .holding w) (typed : w.ty = ty) :
    Does f (compute (.load ty p)) c d (fun o hi d' => Quiet d d' ∧ Has d' hi o w) E :=
  does_value (by simp [Instr.eval, hp.eval, held, typed])

theorem does_select {ty : Ty} {t a b : Operand} {wa wb : Word} {bit : Bool}
    (ht : Has d c.regs t (.bit bit)) (ha : Has d c.regs a wa) (hb : Has d c.regs b wb)
    (typed : wa.ty = ty) (typed' : wb.ty = ty) :
    Does f (compute (.select ty t a b)) c d
      (fun o hi d' => Quiet d d' ∧ Has d' hi o (if bit then wa else wb)) E :=
  does_value (by simp [Instr.eval, ht.eval, ha.eval, hb.eval, typed, typed'])

theorem does_bits (op : BitOp) {a b : Operand} {x y : Bool} (ha : Has d c.regs a (.bit x))
    (hb : Has d c.regs b (.bit y)) :
    Does f (compute (.bits op a b)) c d
      (fun o hi d' => Quiet d d' ∧ Has d' hi o (.bit (op.apply x y))) E :=
  does_value (by simp [Instr.eval, ha.eval, hb.eval])

theorem does_test (test : FloatTest) {a b : Operand} {x y : Float} (ha : Has d c.regs a (.double x))
    (hb : Has d c.regs b (.double y)) :
    Does f (compute (.compare test a b)) c d
      (fun o hi d' => Quiet d d' ∧ Has d' hi o (.bit (test.holds x y))) E :=
  does_value (by simp [Instr.eval, ha.eval, hb.eval])

theorem does_not {a : Operand} {x : Bool} (ha : Has d c.regs a (.bit x)) :
    Does f (not a) c d (fun o hi d' => Quiet d d' ∧ Has d' hi o (.bit !x)) E := by
  apply (does_bits .xor ha (has_bit true)).mono _ fun _ _ h => h
  intro o hi d' h
  simpa [BitOp.apply] using h

end

/-- A look-up has found something that is bound or not, in the cells of this slot. -/
structure Picks (d : Data) (hi : Nat) (found : Found) (pick : Bool × Slot) : Prop where
  bound : Has d hi found.bound (.bit pick.1)
  isBool : Has d hi found.isBool (.pointer ⟨pick.2, .isBool⟩)
  num : Has d hi found.num (.pointer ⟨pick.2, .num⟩)

/-- A bound slot takes the place of what was found further out. -/
def pickSlot (memory : Cell → Storage) (found : Bool × Slot) (slot : Slot) : Bool × Slot :=
  (found.1 || slot.isBound memory, if slot.isBound memory then slot else found.2)

/-- The flag of the slot can be read. -/
def Slot.HasFlag (memory : Cell → Storage) (slot : Slot) : Prop :=
  memory ⟨slot, .bound⟩ = .holding (.bit (slot.isBound memory))

section

variable {f : Function} {c : Counters} {d : Data} {E : String → Data → Prop}

theorem does_prefer {found : Found} {pick : Bool × Slot} {slot : Slot}
    (picks : Picks d c.regs found pick) (flag : slot.HasFlag d.memory) :
    Does f (prefer found slot) c d
      (fun found hi d' => Quiet d d' ∧ Picks d' hi found (pickSlot d.memory pick slot)) E := by
  apply Does.bind (does_load (has_bound slot) flag rfl)
  rintro bound c₁ d₁ le₁ same₁ ⟨quiet₁, hb⟩
  have isBool₁ := picks.isBool.mono le₁ same₁
  apply Does.bind (does_select hb (has_isBool slot) isBool₁ rfl rfl)
  rintro isBool c₂ d₂ le₂ same₂ ⟨quiet₂, hi⟩
  have hb₂ := hb.mono le₂ same₂
  have num₂ := (picks.num.mono le₁ same₁).mono le₂ same₂
  apply Does.bind (does_select hb₂ (has_num slot) num₂ rfl rfl)
  rintro num c₃ d₃ le₃ same₃ ⟨quiet₃, hn⟩
  have bound₃ := ((picks.bound.mono le₁ same₁).mono le₂ same₂).mono le₃ same₃
  apply Does.bind (does_bits .or bound₃ (hb₂.mono le₃ same₃))
  rintro either c₄ d₄ le₄ same₄ ⟨quiet₄, he⟩
  apply does_pure
  refine ⟨((quiet₁.trans quiet₂).trans quiet₃).trans quiet₄, he, ?_, ?_⟩
  · have := (hi.mono le₃ same₃).mono le₄ same₄
    simp only [pickSlot]
    split <;> simp_all
  · have := hn.mono le₄ same₄
    simp only [pickSlot]
    split <;> simp_all

theorem does_foldlM_prefer {slots : List Slot} {found : Found} {pick : Bool × Slot}
    (picks : Picks d c.regs found pick) (flags : ∀ slot ∈ slots, slot.HasFlag d.memory) :
    Does f (slots.foldlM prefer found) c d
      (fun found hi d' => Quiet d d' ∧ Picks d' hi found (slots.foldl (pickSlot d.memory) pick))
      E := by
  induction slots generalizing found pick c d with
  | nil => exact does_pure ⟨.refl d, picks⟩
  | cons slot rest ih =>
    rw [List.foldlM_cons]
    apply Does.bind (does_prefer picks (flags slot List.mem_cons_self))
    rintro nearer c₁ d₁ _ _ ⟨quiet, hn⟩
    have later := ih hn fun s hs => by
      rw [quiet.memory]
      exact flags s (List.mem_cons_of_mem _ hs)
    apply later.mono _ fun _ _ h => h
    rintro found hi d' ⟨quiet', picks'⟩
    rw [quiet.memory] at picks'
    exact ⟨quiet.trans quiet', picks'⟩

/-- From the outside in, the last bound slot is kept: the first from the inside out. -/
theorem foldl_pickSlot (memory : Cell → Storage) {slots nearer : List Slot} {outermost : Slot}
    (order : slots.reverse = outermost :: nearer) :
    nearer.foldl (pickSlot memory) (outermost.isBound memory, outermost) =
      match slots.find? (Slot.isBound memory) with
      | some slot => (true, slot)
      | none => (false, outermost) := by
  have slots_eq : slots = nearer.reverse ++ [outermost] := by
    rw [← List.reverse_reverse slots, order, List.reverse_cons]
  rw [slots_eq, ← List.foldr_reverse]
  induction nearer.reverse with
  | nil => cases h : outermost.isBound memory <;> simp [h]
  | cons slot rest ih =>
    rw [List.foldr_cons, ih, List.cons_append, List.find?_cons]
    cases h : slot.isBound memory with
    | true => simp [pickSlot, h]
    | false => cases (rest ++ [outermost]).find? (Slot.isBound memory) <;> simp [pickSlot, h]

theorem Matches.hasFlag {memory : Cell → Storage} {scope : Scope Slot} {frames : List Frame}
    (h : Matches memory scope frames) {name : String} {slot : Slot}
    (there : slot ∈ scope.candidates name) : slot.HasFlag memory := by
  induction h with
  | nil => simp [Scope.candidates] at there
  | @cons table frame scope frames here _ ih =>
    rw [Scope.candidates_cons, List.mem_append, Option.mem_toList] at there
    obtain own | outer := there
    · have holds := here.holds own
      rw [Slot.HasFlag, holds.isBound_eq]
      cases hf : frame.get? name with
      | none =>
        rw [hf] at holds
        exact holds
      | some v =>
        rw [hf] at holds
        exact holds.1
    · exact ih outer

/-- Looking a name up gives the cells of the nearest bound slot, or stops if none is bound. -/
theorem does_resolve (nodup : (labels f.lines).Nodup) {scope : Scope Slot} {frames : List Frame}
    (h : Matches d.memory scope frames) (name : String) :
    Does f (resolve scope name) c d
      (fun found hi d' => Quiet d d' ∧ ∃ slot isBool num, found = some (isBool, num) ∧
        (scope.candidates name).find? (Slot.isBound d.memory) = some slot ∧
        Has d' hi isBool (.pointer ⟨slot, .isBool⟩) ∧ Has d' hi num (.pointer ⟨slot, .num⟩))
      (fun message d' => Quiet d d' ∧ message = Failure.undeclaredText name ∧
        (scope.candidates name).find? (Slot.isBound d.memory) = none) := by
  unfold resolve
  cases order : (scope.candidates name).reverse with
  | nil =>
    have none : scope.candidates name = [] := List.reverse_eq_nil_iff.1 order
    exact (does_trap ⟨.refl d, rfl, by rw [none]; rfl⟩).stops
  | cons outermost nearer =>
    have flags : ∀ slot ∈ outermost :: nearer, slot.HasFlag d.memory := by
      intro slot hs
      rw [← order, List.mem_reverse] at hs
      exact h.hasFlag hs
    have picked := foldl_pickSlot d.memory order
    apply Does.bind (does_load (has_bound outermost) (flags _ List.mem_cons_self) rfl)
    rintro bound c₁ d₁ _ _ ⟨quiet₁, hb⟩
    have first : Picks d₁ c₁.regs ⟨bound, outermost.isBool, outermost.num⟩
        (outermost.isBound d.memory, outermost) := ⟨hb, has_isBool _, has_num _⟩
    apply Does.bind (does_foldlM_prefer first fun slot hs => by
      rw [quiet₁.memory]
      exact flags slot (List.mem_cons_of_mem _ hs))
    rintro found c₂ d₂ _ _ ⟨quiet₂, hf⟩
    rw [quiet₁.memory, picked] at hf
    apply Does.bind (does_not hf.bound)
    rintro unbound c₃ d₃ le₃ same₃ ⟨quiet₃, hu⟩
    have quiet := (quiet₁.trans quiet₂).trans quiet₃
    have isBool₃ := hf.isBool.mono le₃ same₃
    have num₃ := hf.num.mono le₃ same₃
    cases hfind : (scope.candidates name).find? (Slot.isBound d.memory) with
    | none =>
      rw [hfind] at hu
      exact (does_guard_stops nodup hu.eval ⟨quiet, rfl, rfl⟩).stops
    | some slot =>
      rw [hfind] at hu isBool₃ num₃
      apply Does.bind (does_guard_goes nodup hu.eval)
      rintro _ c₄ d₄ le₄ same₄ rfl
      apply does_pure
      exact ⟨quiet, slot, _, _, rfl, rfl, isBool₃.mono le₄ same₄, num₃.mono le₄ same₄⟩

end

/-- Two operands have the kind and the payload of a value. -/
structure Encodes (d : Data) (hi : Nat) (x : Dyn) (v : Value) : Prop where
  isBool : Has d hi x.isBool (.bit v.isBool)
  num : Has d hi x.num (.double v.payload)

theorem Encodes.mono {d d' : Data} {hi hi' : Nat} {x : Dyn} {v : Value} (h : Encodes d hi x v)
    (le : hi ≤ hi') (same : ∀ r < hi, d'.regs r = d.regs r) : Encodes d' hi' x v :=
  ⟨h.isBool.mono le same, h.num.mono le same⟩

/-- The payload of a boolean differs from zero if it is true. -/
theorem one_payload_bool (b : Bool) : FloatTest.one.holds (Value.bool b).payload 0 = b := by
  cases b <;> decide

/-- Both operands are of the kind that the operator takes. -/
def Op.suits (op : Op) (l r : Value) : Bool :=
  if op.isLogical then l.isBool && r.isBool else !(l.isBool || r.isBool)

theorem apply_of_not_suits {op : Op} {l r : Value} (h : Op.suits op l r = false) :
    op.apply l r = .error (.typeMismatch op l r) := by
  cases op <;> cases l <;> cases r <;>
    first | rfl | simp [Op.suits, Op.isLogical, Value.isBool] at h

/-- The logical operators take booleans and the others numbers. -/
theorem suits_cases {op : Op} {l r : Value} (h : Op.suits op l r = true) :
    (op.isLogical = true ∧ ∃ x y, l = .bool x ∧ r = .bool y) ∨
      (op.isLogical = false ∧ ∃ x y, l = .number x ∧ r = .number y) := by
  cases logical : op.isLogical <;> cases l <;> cases r <;>
    simp_all [Op.suits, Value.isBool]

section

variable {f : Function} {c : Counters} {d : Data} {E : String → Data → Prop}

theorem does_ofBit {bit : Operand} {b : Bool} (hb : Has d c.regs bit (.bit b)) :
    Does f (ofBit bit) c d (fun x hi d' => Quiet d d' ∧ Encodes d' hi x (.bool b)) E := by
  have value : (Instr.toDouble bit).eval d = some (.double (Value.bool b).payload) := by
    simp [Instr.eval, hb.eval, Value.payload]
  apply Does.bind (does_value value)
  rintro num c₁ d₁ _ _ ⟨quiet, hn⟩
  exact does_pure ⟨quiet, has_bit true, hn⟩

theorem does_arith (op : FloatOp) {a b : Dyn} {x y : Float}
    (ha : Encodes d c.regs a (.number x)) (hb : Encodes d c.regs b (.number y)) :
    Does f (arith op a b) c d
      (fun z hi d' => Quiet d d' ∧ Encodes d' hi z (.number (op.apply x y))) E := by
  have value : (Instr.arith op a.num b.num).eval d = some (.double (op.apply x y)) := by
    simp [Instr.eval, ha.num.eval, hb.num.eval, Value.payload]
  apply Does.bind (does_value value)
  rintro num c₁ d₁ _ _ ⟨quiet, hn⟩
  exact does_pure ⟨quiet, has_bit false, hn⟩

theorem does_compare (test : FloatTest) {a b : Dyn} {x y : Float}
    (ha : Encodes d c.regs a (.number x)) (hb : Encodes d c.regs b (.number y)) :
    Does f (compare test a b) c d
      (fun z hi d' => Quiet d d' ∧ Encodes d' hi z (.bool (test.holds x y))) E := by
  apply Does.bind (does_test test ha.num hb.num)
  rintro bit c₁ d₁ _ _ ⟨quiet₁, hbit⟩
  apply (does_ofBit hbit).mono _ fun _ _ h => h
  rintro z hi d' ⟨quiet₂, encodes⟩
  exact ⟨quiet₁.trans quiet₂, encodes⟩

theorem does_logical (op : BitOp) {a b : Dyn} {x y : Bool} (ha : Encodes d c.regs a (.bool x))
    (hb : Encodes d c.regs b (.bool y)) :
    Does f (logical op a b) c d
      (fun z hi d' => Quiet d d' ∧ Encodes d' hi z (.bool (op.apply x y))) E := by
  apply Does.bind (does_test .one ha.num (has_double 0))
  rintro l c₁ d₁ le₁ same₁ ⟨quiet₁, hl⟩
  rw [one_payload_bool] at hl
  apply Does.bind (does_test .one (hb.num.mono le₁ same₁) (has_double 0))
  rintro r c₂ d₂ le₂ same₂ ⟨quiet₂, hr⟩
  rw [one_payload_bool] at hr
  apply Does.bind (does_bits op (hl.mono le₂ same₂) hr)
  rintro bit c₃ d₃ _ _ ⟨quiet₃, hbit⟩
  apply (does_ofBit hbit).mono _ fun _ _ h => h
  rintro z hi d' ⟨quiet₄, encodes⟩
  exact ⟨((quiet₁.trans quiet₂).trans quiet₃).trans quiet₄, encodes⟩

theorem does_checkOperands (nodup : (labels f.lines).Nodup) (op : Op) {a b : Dyn} {l r : Value}
    (ha : Encodes d c.regs a l) (hb : Encodes d c.regs b r) :
    Does f (checkOperands op a b) c d
      (fun _ _ d' => Quiet d d' ∧ Op.suits op l r = true)
      (fun message d' => Quiet d d' ∧ Op.suits op l r = false ∧
        message = Failure.operandsText op) := by
  unfold checkOperands Op.suits
  split
  · apply Does.bind (does_bits .and ha.isBool hb.isBool)
    rintro both c₁ d₁ _ _ ⟨quiet₁, hboth⟩
    apply Does.bind (does_not hboth)
    rintro notBoth c₂ d₂ _ _ ⟨quiet₂, hnot⟩
    have quiet := quiet₁.trans quiet₂
    cases h : l.isBool && r.isBool with
    | true =>
      rw [BitOp.apply, h] at hnot
      apply (does_guard_goes nodup hnot.eval).mono _ fun _ _ h => h
      rintro _ _ _ rfl
      exact ⟨quiet, rfl⟩
    | false =>
      rw [BitOp.apply, h] at hnot
      exact (does_guard_stops nodup hnot.eval ⟨quiet, rfl, rfl⟩).mono
        (fun _ _ _ impossible => impossible.elim) fun _ _ h => h
  · apply Does.bind (does_bits .or ha.isBool hb.isBool)
    rintro either c₁ d₁ _ _ ⟨quiet, heither⟩
    cases h : l.isBool || r.isBool with
    | true =>
      rw [BitOp.apply, h] at heither
      exact (does_guard_stops nodup heither.eval ⟨quiet, rfl, rfl⟩).mono
        (fun _ _ _ impossible => impossible.elim) fun _ _ h => h
    | false =>
      rw [BitOp.apply, h] at heither
      apply (does_guard_goes nodup heither.eval).mono _ fun _ _ h => h
      rintro _ _ _ rfl
      exact ⟨quiet, rfl⟩

/-- What the code of an operation or an expression with this result does: it comes to the value, or
announces the failure. -/
def Computes (f : Function) (g : Gen Dyn) (c : Counters) (d : Data)
    (result : Except Failure Value) : Prop :=
  Does f g c d (fun x hi d' => Quiet d d' ∧ ∃ v, result = .ok v ∧ Encodes d' hi x v)
    (fun message d' => Quiet d d' ∧ ∃ failure, result = .error failure ∧ Announces message failure)

/-- An operator on two values. -/
theorem does_operation (nodup : (labels f.lines).Nodup) (op : Op) {a b : Dyn} {l r : Value}
    (ha : Encodes d c.regs a l) (hb : Encodes d c.regs b r) :
    Computes f (operation op a b) c d (op.apply l r) := by
  have checked := does_checkOperands nodup op ha hb
  apply Does.bind (checked.mono (fun _ _ _ h => h) _)
  · rintro _ c₁ d₁ le₁ same₁ ⟨quiet, suits⟩
    have ha₁ := ha.mono le₁ same₁
    have hb₁ := hb.mono le₁ same₁
    have value {g : Gen Dyn} {v : Value} {result : Except Failure Value} (ok : result = .ok v)
        (h : ∀ E, Does f g c₁ d₁ (fun x hi d' => Quiet d₁ d' ∧ Encodes d' hi x v) E) :
        Does f g c₁ d₁ (fun x hi d' => Quiet d d' ∧ ∃ v, result = .ok v ∧ Encodes d' hi x v)
          (fun message d' => Quiet d d' ∧
            ∃ failure, result = .error failure ∧ Announces message failure) :=
      (h _).mono (fun _ _ _ ⟨quiet', encodes⟩ => ⟨quiet.trans quiet', v, ok, encodes⟩)
        fun _ _ h => h
    obtain ⟨logical, x, y, rfl, rfl⟩ | ⟨arithmetic, x, y, rfl, rfl⟩ := suits_cases suits
    · cases op with
      | and => exact value rfl fun _ => does_logical .and ha₁ hb₁
      | or => exact value rfl fun _ => does_logical .or ha₁ hb₁
      | _ => simp [Op.isLogical] at logical
    · cases op with
      | add => exact value rfl fun _ => does_arith .add ha₁ hb₁
      | sub => exact value rfl fun _ => does_arith .sub ha₁ hb₁
      | mul => exact value rfl fun _ => does_arith .mul ha₁ hb₁
      | greater => exact value rfl fun _ => does_compare .ogt ha₁ hb₁
      | less => exact value rfl fun _ => does_compare .olt ha₁ hb₁
      | equal => exact value rfl fun _ => does_compare .oeq ha₁ hb₁
      | div =>
        apply Does.bind (does_test .oeq hb₁.num (has_double 0))
        rintro byZero c₂ d₂ le₂ same₂ ⟨quiet₂, hz⟩
        cases h : y == 0 with
        | true =>
          have failing : byZero.eval d₂ = some (.bit true) := h ▸ hz.eval
          have fails : Op.div.apply (.number x) (.number y) = .error .divisionByZero := by
            simp [Op.apply, Op.arithmetic, h]
          exact (does_guard_stops nodup failing
            ⟨quiet.trans quiet₂, .divisionByZero, fails, announces_notice .divisionByZero⟩).stops
        | false =>
          have passing : byZero.eval d₂ = some (.bit false) := h ▸ hz.eval
          have result : Op.div.apply (.number x) (.number y) = .ok (.number (x / y)) := by
            simp [Op.apply, Op.arithmetic, h]
          apply Does.bind (does_guard_goes nodup passing)
          rintro _ c₃ d₃ le₃ same₃ rfl
          apply (does_arith .div ((ha₁.mono le₂ same₂).mono le₃ same₃)
            ((hb₁.mono le₂ same₂).mono le₃ same₃)).mono _ fun _ _ h => h
          rintro z hi d' ⟨quiet₄, encodes⟩
          exact ⟨(quiet.trans quiet₂).trans quiet₄, _, result, encodes⟩
      | unknown symbol => rintro _ ⟨⟩
      | and | or => simp [Op.isLogical] at arithmetic
  · rintro message d' ⟨quiet, mismatch, rfl⟩
    exact ⟨quiet, _, apply_of_not_suits mismatch, announces_notice (.typeMismatch op l r)⟩

theorem does_variable (nodup : (labels f.lines).Nodup) {scope : Scope Slot} {env : Env}
    (h : Matches d.memory scope env.frames) (name : String) :
    Computes f (expression scope (.variable name)) c d (env.get name) := by
  have found := find_matches h name
  have looked := does_resolve nodup (c := c) h name
  apply Does.bind (looked.mono (fun _ _ _ h => h) _)
  · rintro _ c₁ d₁ le₁ same₁ ⟨quiet₁, slot, isBool, num, rfl, here, hi, hn⟩
    rw [here] at found
    obtain ⟨v, value, _, isBool_held, num_held⟩ := found
    rw [← quiet₁.memory] at isBool_held num_held
    apply Does.bind (does_load hi isBool_held rfl)
    rintro a c₂ d₂ le₂ same₂ ⟨quiet₂, ha⟩
    rw [← quiet₂.memory] at num_held
    apply Does.bind (does_load (hn.mono le₂ same₂) num_held rfl)
    rintro b c₃ d₃ le₃ same₃ ⟨quiet₃, hb⟩
    apply does_pure
    refine ⟨(quiet₁.trans quiet₂).trans quiet₃, v, ?_, ha.mono le₃ same₃, hb⟩
    simp [Env.get, value]
  · rintro message d' ⟨quiet, rfl, nowhere⟩
    rw [nowhere] at found
    exact ⟨quiet, .undeclared name, by simp [Env.get, found], announces_notice (.undeclared name)⟩

/-- **The code of an expression computes its value** or announces its failure. -/
theorem does_expression (nodup : (labels f.lines).Nodup) {scope : Scope Slot} {env : Env}
    (h : Matches d.memory scope env.frames) (e : Expr) :
    Computes f (expression scope e) c d (e.eval env) := by
  induction e generalizing c d with
  | bool b =>
    apply does_pure
    refine ⟨.refl d, _, rfl, has_bit true, ?_⟩
    cases b <;> exact has_double _
  | number x => exact does_pure ⟨.refl d, _, rfl, has_bit false, has_double x⟩
  | «variable» name => exact does_variable nodup h name
  | binary op l r ihl ihr =>
    apply Does.bind ((ihl h).mono (fun _ _ _ h => h) _)
    · rintro a c₁ d₁ le₁ same₁ ⟨quiet₁, va, left, ha⟩
      have h₁ : Matches d₁.memory scope env.frames := quiet₁.memory ▸ h
      apply Does.bind ((ihr h₁).mono (fun _ _ _ h => h) _)
      · rintro b c₂ d₂ le₂ same₂ ⟨quiet₂, vb, right, hb⟩
        have result : (Expr.binary op l r).eval env = op.apply va vb := by
          simp [Expr.eval, left, right]
        rw [result]
        apply (does_operation nodup op (ha.mono le₂ same₂) hb).mono
        · rintro x hi d' ⟨quiet₃, value⟩
          exact ⟨(quiet₁.trans quiet₂).trans quiet₃, value⟩
        · rintro message d' ⟨quiet₃, failure⟩
          exact ⟨(quiet₁.trans quiet₂).trans quiet₃, failure⟩
      · rintro message d' ⟨quiet₂, failure, fails, announces⟩
        exact ⟨quiet₁.trans quiet₂, failure, by simp [Expr.eval, left, fails], announces⟩
    · rintro message d' ⟨quiet, failure, fails, announces⟩
      exact ⟨quiet, failure, by simp [Expr.eval, fails], announces⟩
  | hole => rintro _ ⟨⟩

/-- The code of a test computes its truth or announces its failure. -/
theorem does_condition (nodup : (labels f.lines).Nodup) {scope : Scope Slot} {env : Env}
    (h : Matches d.memory scope env.frames) (construct : Construct) (e : Expr) :
    Does f (condition scope construct e) c d
      (fun o hi d' => Quiet d d' ∧ ∃ b, e.test construct env = .ok b ∧ Has d' hi o (.bit b))
      (fun message d' => Quiet d d' ∧
        ∃ failure, e.test construct env = .error failure ∧ Announces message failure) := by
  apply Does.bind ((does_expression nodup h e).mono (fun _ _ _ h => h) _)
  · rintro x c₁ d₁ le₁ same₁ ⟨quiet₁, v, value, hv⟩
    apply Does.bind (does_not hv.isBool)
    rintro wrong c₂ d₂ le₂ same₂ ⟨quiet₂, hw⟩
    have quiet := quiet₁.trans quiet₂
    cases v with
    | number x =>
      have fails : e.test construct env = .error (.notBoolean construct (.number x)) := by
        simp [Expr.test, value]
      exact (does_guard_stops nodup hw.eval
        ⟨quiet, _, fails, announces_notice (.notBoolean construct _)⟩).stops
    | bool b =>
      have holds : e.test construct env = .ok b := by simp [Expr.test, value]
      apply Does.bind (does_guard_goes nodup hw.eval)
      rintro _ c₃ d₃ le₃ same₃ rfl
      have hn := (hv.num.mono le₂ same₂).mono le₃ same₃
      apply (does_test .one hn (has_double 0)).mono _ fun _ _ h => h
      rintro o hi d' ⟨quiet₃, ho⟩
      rw [one_payload_bool] at ho
      exact ⟨quiet.trans quiet₃, b, holds, ho⟩
  · rintro message d' ⟨quiet, failure, fails, announces⟩
    exact ⟨quiet, failure, by simp [Expr.test, fails], announces⟩

end

end Code

end LetWhile
