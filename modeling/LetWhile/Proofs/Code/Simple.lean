import LetWhile.Proofs.Code.Fragment
import LetWhile.Proofs.Code.Values
import LetWhile.Run

/-!
Statements without blocks. The machine agrees with the state of a program if its slots match the
frames and it has printed the same; the code of such a statement leads from agreement to agreement,
or stops as the statement fails.

* `performs_declare`, `performs_assign`, `performs_print`, `performs_eval`
-/
namespace LetWhile

def Event.encoded? : Event → Option (Bool × Float)
  | .printed v => some (v.isBool, v.payload)
  | _ => none

/-- What was printed: kinds and payloads, the latest first. -/
def State.encoded (s : State) : List (Bool × Float) := s.past.filterMap Event.encoded?

@[simp] theorem State.encoded_leave (s : State) : s.leave.encoded = s.encoded := rfl

namespace Code

open Gen

/-- The machine has the bindings and the output of the program. -/
structure Agrees (known : Slot → Prop) (scope : Scope Slot) (s : State) (d : Data) : Prop where
  frames : Matches d.memory scope s.env.frames
  output : d.output = s.encoded
  room : s.room = none
  reserved : ∀ c : Cell, known c.slot → d.memory c ≠ .absent

/-- What straight code does for a statement that ends normally or fails. -/
def Performs (f : Function) (known : Slot → Prop) (scope : Scope Slot) (g : Gen Unit)
    (c : Counters) (d : Data) (result : Ending × State) : Prop :=
  Does f g c d (fun _ _ d' => ∃ s, result = (.normal, s) ∧ Agrees known scope s d')
    (fun message d' => ∃ failure s, result = (.failed failure, s) ∧
      Announces message failure ∧ d'.output = s.encoded)

section

variable {f : Function} {fuel : Nat} {known : Slot → Prop} {scope : Scope Slot} {c : Counters}
  {s : State} {d d' : Data}

theorem Agrees.quiet (h : Agrees known scope s d) (quiet : Quiet d d') :
    Agrees known scope s d' where
  frames := quiet.memory ▸ h.frames
  output := quiet.output.trans h.output
  room := h.room
  reserved c hc := by
    rw [quiet.memory]
    exact h.reserved c hc

/-- Code that goes on with the value of an expression. -/
theorem performs_withValue (nodup : (labels f.lines).Nodup) (agrees : Agrees known scope s d)
    (value : Expr) {k : Dyn → Gen Unit} {next : Value → Ending × State}
    (h : ∀ v x (c' : Counters) d', Agrees known scope s d' → Encodes d' c'.regs x v →
      Performs f known scope (k x) c' d' (next v)) :
    Performs f known scope (expression scope value >>= k) c d (s.withValue value next) := by
  apply Does.bind ((does_expression nodup agrees.frames value).mono (fun _ _ _ h => h) _)
  · rintro x c' d' _ _ ⟨quiet, v, evaluated, encodes⟩
    have result : s.withValue value next = next v := by simp [State.withValue, evaluated]
    rw [result]
    exact h v x c' d' (agrees.quiet quiet) encodes
  · rintro message d' ⟨quiet, failure, fails, announces⟩
    refine ⟨failure, s, by simp [State.withValue, fails], announces, ?_⟩
    exact quiet.output.trans agrees.output

theorem performs_eval (nodup : (labels f.lines).Nodup) (agrees : Agrees known scope s d)
    (value : Expr) :
    Performs f known scope (statement scope (.eval value)) c d
      ((Stmt.eval value).exec fuel s) := by
  rw [statement, Stmt.exec]
  apply performs_withValue nodup agrees
  intro v x c' d' agrees' _
  exact does_pure ⟨s, rfl, agrees'⟩

theorem performs_print (nodup : (labels f.lines).Nodup) (agrees : Agrees known scope s d)
    (value : Expr) :
    Performs f known scope (statement scope (.print value)) c d
      ((Stmt.print value).exec fuel s) := by
  rw [statement, Stmt.exec]
  apply performs_withValue nodup agrees
  intro v x c' d' agrees' encodes
  apply does_print encodes.isBool.eval encodes.num.eval
  refine ⟨s.emit (.printed v), by simp [State.print, agrees.room], ?_⟩
  refine ⟨agrees'.frames, ?_, agrees'.room, agrees'.reserved⟩
  simp [Data.print, agrees'.output, State.encoded, State.emit, Event.encoded?]

end

/-- Stores a value in the cells of a slot. -/
def Data.write (d : Data) (slot : Slot) (v : Value) : Data :=
  (d.put ⟨slot, .isBool⟩ (.holding (.bit v.isBool))).put ⟨slot, .num⟩ (.holding (.double v.payload))

/-- Stores a value in a slot and binds it. -/
def Data.bind (d : Data) (slot : Slot) (v : Value) : Data :=
  (d.write slot v).put ⟨slot, .bound⟩ (.holding (.bit true))

section

variable {f : Function} {fuel : Nat} {known : Slot → Prop} {scope : Scope Slot} {c : Counters}
  {s : State} {d d' : Data} {slot : Slot} {v : Value}

theorem write_elsewhere (d : Data) (slot : Slot) (v : Value) :
    SameElsewhere (· = slot) d.memory (d.write slot v).memory := by
  rintro ⟨other, part⟩ ne
  have ne : other ≠ slot := ne
  simp [Data.write, ne]

theorem bind_elsewhere (d : Data) (slot : Slot) (v : Value) :
    SameElsewhere (· = slot) d.memory (d.bind slot v).memory := by
  rintro ⟨other, part⟩ ne
  have ne : other ≠ slot := ne
  simp [Data.bind, Data.write, ne]

theorem bind_holds (d : Data) (slot : Slot) (v : Value) :
    slot.Holds (d.bind slot v).memory (some v) := by
  simp [Slot.Holds, Data.bind, Data.write]

theorem does_write {x : Dyn} {isBool num : Operand} {Q : Unit → Nat → Data → Prop}
    {E : String → Data → Prop} (encodes : Encodes d c.regs x v)
    (hi : Has d c.regs isBool (.pointer ⟨slot, .isBool⟩))
    (hn : Has d c.regs num (.pointer ⟨slot, .num⟩))
    (reserved : ∀ part, d.memory ⟨slot, part⟩ ≠ .absent)
    (h : ∀ hi, Q () hi (d.write slot v)) :
    Does f (do store .i1 x.isBool isBool; store .double x.num num) c d Q E := by
  let d₁ := d.put ⟨slot, .isBool⟩ (.holding (.bit v.isBool))
  apply Does.bind (does_store (Q := fun _ _ d' => d' = d₁) encodes.isBool.eval hi.eval ⟨rfl, rfl⟩
    (reserved _) rfl)
  rintro _ c₁ _ le₁ same₁ rfl
  exact does_store (encodes.num.mono le₁ same₁).eval (hn.mono le₁ same₁).eval ⟨rfl, rfl⟩
    (Data.put_reserved (reserved _) _ _) (h _)

theorem write_reserved (h : ∀ c : Cell, known c.slot → d.memory c ≠ .absent) (cell : Cell)
    (hc : known cell.slot) : (d.write slot v).memory cell ≠ .absent :=
  Data.put_reserved (Data.put_reserved (h cell hc) _ _) _ _

theorem does_bind {x : Dyn} {Q : Unit → Nat → Data → Prop} {E : String → Data → Prop}
    (encodes : Encodes d c.regs x v) (reserved : ∀ part, d.memory ⟨slot, part⟩ ≠ .absent)
    (h : ∀ hi, Q () hi (d.bind slot v)) :
    Does f (do
      store .i1 x.isBool slot.isBool
      store .double x.num slot.num
      store .i1 (.bit true) slot.bound) c d Q E := by
  change Does f ((do store .i1 x.isBool slot.isBool; store .double x.num slot.num) >>=
    fun _ => store .i1 (.bit true) slot.bound) c d Q E
  apply Does.bind (does_write (Q := fun _ _ d' => d' = d.write slot v) encodes (has_isBool slot)
    (has_num slot) reserved fun _ => rfl)
  rintro _ c' _ _ _ rfl
  refine does_store rfl rfl ⟨rfl, rfl⟩ ?_ (h _)
  exact Data.put_reserved (Data.put_reserved (reserved .bound) _ _) _ _

theorem bind_reserved (h : ∀ c : Cell, known c.slot → d.memory c ≠ .absent) (cell : Cell)
    (hc : known cell.slot) : (d.bind slot v).memory cell ≠ .absent :=
  Data.put_reserved (write_reserved h cell hc) _ _

theorem update?_of_find?_none {name : String} {frames : List Frame}
    (h : Env.find? name frames = none) (v : Value) : Env.update? name v frames = none := by
  induction frames with
  | nil => rfl
  | cons frame frames ih =>
    rw [Env.find?] at h
    split at h
    · rename_i there
      rw [contains_iff, h] at there
      simp at there
    · rename_i absent
      simp [Env.update?, absent, ih h]

theorem performs_assign (nodup : (labels f.lines).Nodup) (within : Scope.Within scope known)
    {made : Nat} (layered : Layered made scope) (agrees : Agrees known scope s d) (name : String)
    (value : Expr) :
    Performs f known scope (statement scope (.assign name value)) c d
      ((Stmt.assign name value).exec fuel s) := by
  rw [statement, Stmt.exec]
  apply performs_withValue nodup agrees
  intro v x c₁ d₁ agrees₁ encodes
  have found := find_matches agrees₁.frames name
  apply Does.bind ((does_resolve nodup agrees₁.frames name).mono (fun _ _ _ h => h) _)
  · rintro _ c₂ d₂ le₂ same₂ ⟨quiet, slot, isBool, num, rfl, here, hi, hn⟩
    have agrees₂ := agrees₁.quiet quiet
    rw [← quiet.memory] at here found
    rw [here] at found
    obtain ⟨old, _, bound, _⟩ := found
    have known_slot : known slot := within name slot (List.mem_of_find?_eq_some here)
    have holds : slot.Holds (d₂.write slot v).memory (some v) := by
      simp [Slot.Holds, Data.write, bound]
    obtain ⟨frames, updated, matching⟩ :=
      update_matches agrees₂.frames layered here (write_elsewhere d₂ slot v) holds
    have assigned : ∃ env, s.env.assign name v = .ok env ∧ env.frames = frames := by
      cases frames with
      | nil => cases matching; cases agrees.frames
      | cons own outer => exact ⟨⟨own, outer⟩, by simp [Env.assign, updated], rfl⟩
    obtain ⟨env, assigned, rfl⟩ := assigned
    apply does_write (encodes.mono le₂ same₂) hi hn fun part => agrees₂.reserved _ known_slot
    intro _
    refine ⟨{ s with env }, by simp [State.update, assigned], ?_⟩
    exact ⟨matching, agrees₂.output, agrees₂.room, write_reserved agrees₂.reserved⟩
  · rintro message d' ⟨quiet, rfl, nowhere⟩
    rw [nowhere] at found
    have fails : s.env.assign name v = .error (.undeclared name) := by
      simp [Env.assign, update?_of_find?_none found v]
    refine ⟨.undeclared name, s, by simp [State.update, fails], ?_, ?_⟩
    · exact announces_notice (.undeclared name)
    · exact quiet.output.trans agrees₁.output

/-- Binding a slot, unless it is bound, declares its name, unless it is declared. -/
theorem performs_binding (nodup : (labels f.lines).Nodup) {made : Nat} {table : Dict Slot}
    (layered : Layered made (table :: scope)) (agrees : Agrees known (table :: scope) s d)
    {name : String} (here : table.get? name = some slot) (known_slot : known slot) {x : Dyn}
    (encodes : Encodes d c.regs x v) :
    Performs f known (table :: scope) (do
      let bound ← compute (.load .i1 slot.bound)
      guard bound (Failure.redeclaredText name)
      store .i1 x.isBool slot.isBool
      store .double x.num slot.num
      store .i1 (.bit true) slot.bound) c d
      ((s.emit (.declared name v)).update (s.env.declare name v)) := by
  have candidate : slot ∈ Scope.candidates (table :: scope) name := by
    simp [Scope.candidates_cons, here]
  have bound_eq : slot.isBound d.memory = s.env.own.contains name := by
    have holds := (List.forall₂_cons.1 agrees.frames).1.holds here
    rw [holds.isBound_eq, Bool.eq_iff_iff, contains_iff]
  apply Does.bind (does_load (has_bound slot) (agrees.frames.hasFlag candidate) rfl)
  rintro bound c₁ d₁ le₁ same₁ ⟨quiet, hb⟩
  have agrees₁ := agrees.quiet quiet
  rw [bound_eq] at hb
  cases declared : s.env.own.contains name with
  | true =>
    rw [declared] at hb
    have fails : s.env.declare name v = .error (.redeclared name) := by
      simp [Env.declare, Frame.declare, declared]
    apply Does.stops
    apply does_guard_stops nodup hb.eval
    refine ⟨.redeclared name, s.emit (.declared name v), by simp [State.update, fails], ?_, ?_⟩
    · exact announces_notice (.redeclared name)
    · exact agrees₁.output
  | false =>
    rw [declared] at hb
    have declares : s.env.declare name v = .ok ⟨s.env.own.insert name v, s.env.outer⟩ := by
      simp [Env.declare, Frame.declare, declared]
    apply Does.bind (does_guard_goes nodup hb.eval)
    rintro _ c₂ d₂ le₂ same₂ rfl
    have encodes₂ := (encodes.mono le₁ same₁).mono le₂ same₂
    apply does_bind encodes₂ fun part => agrees₁.reserved _ known_slot
    intro _
    refine ⟨{ s.emit (.declared name v) with env := ⟨s.env.own.insert name v, s.env.outer⟩ },
      by simp [State.update, declares], ?_⟩
    refine ⟨?_, agrees₁.output, agrees₁.room, bind_reserved agrees₁.reserved⟩
    exact declare_matches agrees₁.frames layered here (bind_elsewhere d₂ slot v)
      (bind_holds d₂ slot v)

theorem performs_declare (nodup : (labels f.lines).Nodup) (within : Scope.Within scope known)
    {made : Nat} (layered : Layered made scope) (agrees : Agrees known scope s d) (name : String)
    (value : Expr) :
    Performs f known scope (statement scope (.declare name value)) c d
      ((Stmt.declare name value).exec fuel s) := by
  rw [statement, Stmt.exec]
  apply performs_withValue nodup agrees
  intro v x c₁ d₁ agrees₁ encodes
  cases own : scope.own? name with
  | none => rintro _ ⟨⟩
  | some slot =>
    have known_slot := own_known within own
    cases scope with
    | nil => simp [Scope.own?] at own
    | cons table outer => exact performs_binding nodup layered agrees₁ own known_slot encodes

end

end Code

end LetWhile
