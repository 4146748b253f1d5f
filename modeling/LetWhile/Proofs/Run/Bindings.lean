import LetWhile.Proofs.Run.Frames

/-!
# The bindings that a program leaves

A program that comes to its end has bound the names that it declares at the top, each of them once; a
program that returns has bound those that were declared before the statement with the return. What
the blocks inside declare is gone. Main result: `Block.run_leaves_declarations`.

One statement adds the name it declares to the own frame and nothing else (`Stmt.exec_binds`), which
rests on what it may do to its frames at all (`Stmt.exec_confined`).
-/

namespace LetWhile

theorem Env.Evolves.mem_keys {new targets : List String} {e e' : Env} {x : String}
    (h : Env.Evolves new targets e.frames e'.frames) :
    (x ∈ e.own.keys → x ∈ e'.own.keys) ∧ (x ∈ e'.own.keys → x ∈ e.own.keys ∨ x ∈ new) := by
  rw [Dict.mem_keys_iff, Dict.mem_keys_iff]
  exact ⟨h.keeps x, h.gains x⟩

namespace Stmt

/-- A declaration fails, or binds a name that the own frame did not bind. -/
theorem exec_declare_cases (fuel : Nat) (name : String) (e : Expr) (s : State) :
    (∃ failure, ((declare name e).exec fuel s).1 = .failed failure) ∨
    (name ∉ s.env.own.keys ∧ name ∈ ((declare name e).exec fuel s).2.env.own.keys ∧
      ((declare name e).exec fuel s).1 = .normal) := by
  simp only [exec, State.withValue]
  cases e.eval s.env with
  | error failure => exact .inl ⟨failure, rfl⟩
  | ok v =>
    unfold Env.declare Frame.declare
    cases there : s.env.own.contains name with
    | true => exact .inl ⟨.redeclared name, rfl⟩
    | false =>
      have unbound : name ∉ s.env.own.keys := by
        rw [Dict.mem_keys_iff, ← Dict.contains_eq_isSome, there]
        nofun
      refine .inr ⟨unbound, ?_, rfl⟩
      simp [State.update, Dict.mem_keys_iff, Dict.get?_insert]

variable {fuel : Nat} {stmt : Stmt} {s s' : State} {x : String}

theorem exec_binds (h : stmt.exec fuel s = (.normal, s')) :
    x ∈ s'.env.own.keys ↔ x ∈ s.env.own.keys ∨ stmt.declares? = some x := by
  have evolves := stmt.exec_confined fuel s
  rw [h] at evolves
  constructor
  · intro bound
    have gained := evolves.mem_keys.2 bound
    rwa [Option.mem_toList] at gained
  · rintro (before | declares)
    · exact evolves.mem_keys.1 before
    · cases stmt with
      | declare name e =>
        cases declares
        rcases exec_declare_cases fuel x e s with ⟨failure, failed⟩ | ⟨-, bound, -⟩
        · rw [h] at failed
          cases failed
        · rwa [h] at bound
      | _ => cases declares

/-- What a statement that ends has declared was not declared before. -/
theorem exec_declares_once (h : stmt.exec fuel s = (.normal, s')) (declares : stmt.declares? = some x) :
    x ∉ s.env.own.keys := by
  cases stmt with
  | declare name e =>
    cases declares
    rcases exec_declare_cases fuel x e s with ⟨failure, failed⟩ | ⟨unbound, -, -⟩
    · rw [h] at failed
      cases failed
    · exact unbound
  | _ => cases declares

/-- A declaration does not return, and nothing else adds a name. -/
theorem exec_returned_binds {v : Value} (h : stmt.exec fuel s = (.returned v, s')) :
    x ∈ s'.env.own.keys ↔ x ∈ s.env.own.keys := by
  have evolves := stmt.exec_confined fuel s
  have declares : stmt.declares? = none := by
    cases stmt with
    | declare name e =>
      rcases exec_declare_cases fuel name e s with ⟨failure, failed⟩ | ⟨-, -, normal⟩
      · rw [h] at failed
        cases failed
      · rw [h] at normal
        cases normal
    | _ => rfl
  rw [h, declares] at evolves
  refine ⟨fun bound => ?_, evolves.mem_keys.1⟩
  have gained := evolves.mem_keys.2 bound
  simpa using gained

end Stmt

namespace Block

/-- The names of the declarations of a block, as often as they stand there. -/
def lets (b : Block) : List String := b.filterMap Stmt.declares?

theorem lets_cons (stmt : Stmt) (rest : Block) :
    lets (stmt :: rest) = stmt.declares?.toList ++ lets rest := by
  rw [lets, List.filterMap_cons]
  cases stmt.declares? <;> rfl

theorem declarations_of_nodup {b : Block} (h : (lets b).Nodup) : declarations b = lets b := by
  unfold declarations
  change (lets b).eraseDups = lets b
  generalize lets b = names at h
  induction names with
  | nil => rfl
  | cons name rest ih =>
    rw [List.nodup_cons] at h
    have kept : (rest.filter fun other => !other == name) = rest := by
      rw [List.filter_eq_self]
      intro other there
      have distinct : other ≠ name := fun same => h.1 (same ▸ there)
      simpa using distinct
    rw [List.eraseDups_cons, kept, ih h.2]

theorem mem_declarations {b : Block} {x : String} : x ∈ declarations b ↔ x ∈ lets b :=
  List.mem_eraseDups

/-- A run to the end adds the names that are declared, no name twice and none that was bound. -/
theorem runFrom_binds {fuel number : Nat} {b : List Stmt} {s s' : State}
    (h : runFrom fuel number b s = (.finished, s')) :
    (∀ x, x ∈ s'.env.own.keys ↔ x ∈ s.env.own.keys ∨ x ∈ lets b) ∧
    (lets b).Nodup ∧ ∀ x ∈ lets b, x ∉ s.env.own.keys := by
  induction b generalizing number s with
  | nil =>
    cases h
    simp [lets]
  | cons stmt rest ih =>
    rw [runFrom] at h
    split at h
    · rename_i s₁ hfirst
      obtain ⟨binds, distinct, new⟩ := ih h
      have first (x : String) := Stmt.exec_binds (x := x) hfirst
      simp only [lets_cons, List.nodup_append, List.mem_append, Option.mem_toList]
      refine ⟨?_, ⟨?_, distinct, ?_⟩, ?_⟩
      · intro x
        rw [binds, first, or_assoc]
      · cases stmt.declares? <;> simp
      · rintro x declares y later rfl
        exact new x later ((first x).2 (.inr declares))
      · rintro x (declares | later) before
        · exact Stmt.exec_declares_once hfirst declares before
        · exact new x later ((first x).2 (.inl before))
    all_goals cases h

/-- A run that returns comes to its end before one statement, and that statement returns. -/
theorem runFrom_returned {fuel number : Nat} {b : List Stmt} {s s' : State} {v : Value}
    (h : runFrom fuel number b s = (.returned v, s')) :
    ∃ before stmt after s₁ s₂, b = before ++ stmt :: after ∧
      runFrom fuel number before s = (.finished, s₁) ∧ stmt.exec fuel s₁ = (.returned v, s₂) ∧
      s' = s₂.emit (.returned (number + before.length) v) := by
  induction b generalizing number s with
  | nil => cases h
  | cons stmt rest ih =>
    rw [runFrom] at h
    split at h
    · rename_i s₁ hfirst
      obtain ⟨before, last, after, s₂, s₃, rfl, finished, returned, rfl⟩ := ih h
      refine ⟨stmt :: before, last, after, s₂, s₃, rfl, ?_, returned, ?_⟩
      · rw [runFrom, hfirst]
        exact finished
      · rw [List.length_cons, Nat.add_assoc, Nat.add_comm 1]
    · rename_i w s₁ hfirst
      cases h
      exact ⟨[], stmt, rest, s, s₁, rfl, rfl, hfirst, rfl⟩
    all_goals cases h

/-- From no bindings to those declared. -/
theorem run_root_binds {fuel : Nat} {b : Block} {room : Option Nat} {s : State}
    (h : run fuel b { env := .root, room } = (.finished, s)) :
    s.env.own.keys.Perm (declarations b) ∧ (lets b).Nodup := by
  obtain ⟨binds, distinct, -⟩ := runFrom_binds h
  refine ⟨?_, distinct⟩
  rw [declarations_of_nodup distinct, List.perm_ext_iff_of_nodup s.env.own.nodup_keys distinct]
  intro x
  exact (binds x).trans (or_iff_right List.not_mem_nil)

theorem run_root_returned {fuel : Nat} {b : Block} {room : Option Nat} {s : State} {v : Value}
    (h : run fuel b { env := .root, room } = (.returned v, s)) :
    ∃ before stmt after s₁, b = before ++ stmt :: after ∧
      run fuel before { env := .root, room } = (.finished, s₁) ∧
      (stmt.exec fuel s₁).1 = .returned v ∧
      s.past.head? = some (.returned (before.length + 1) v) ∧
      s.env.own.keys.Perm (declarations before) := by
  obtain ⟨before, stmt, after, s₁, s₂, rfl, finished, returned, rfl⟩ := runFrom_returned h
  refine ⟨before, stmt, after, s₁, rfl, finished, by rw [returned], ?_, ?_⟩
  · rw [Nat.add_comm]
    rfl
  · have same : s₂.env.own.keys.Perm s₁.env.own.keys := by
      rw [List.perm_ext_iff_of_nodup s₂.env.own.nodup_keys s₁.env.own.nodup_keys]
      exact fun x => Stmt.exec_returned_binds returned
    exact same.trans (run_root_binds finished).1

/-- **A program leaves the bindings it declares.** When it comes to its end, it has bound exactly the
names that it declares at the top, and it declares none of them twice. When it returns, there is one
statement in which it does, the one whose number is noted; the statements before it have come to
their end, and exactly the names that they declare are bound. In both cases a name that is declared
only in blocks inside the program is not bound. -/
theorem run_leaves_declarations (program : Block) (room : Option Nat) :
    (∀ s, Ends program { env := .root, room } .finished s →
      s.env.own.keys.Perm (declarations program) ∧
      (program.filterMap Stmt.declares?).length = s.env.own.keys.length ∧
      (program.filterMap Stmt.declares?).Nodup) ∧
    (∀ v s, Ends program { env := .root, room } (.returned v) s →
      ∃ before stmt after, program = before ++ stmt :: after ∧
        (∃ s₁ fuel, Ends before { env := .root, room } .finished s₁ ∧
          (stmt.exec fuel s₁).1 = .returned v) ∧
        s.past.head? = some (.returned (before.length + 1) v) ∧
        s.env.own.keys.Perm (declarations before)) ∧
    (∀ outcome s, Ends program { env := .root, room } outcome s →
      outcome = .finished ∨ (∃ v, outcome = .returned v) →
      ∀ inside ∈ inner program, ∀ x ∈ declarations inside, x ∉ declarations program →
        x ∉ s.env.own.keys) := by
  refine ⟨?_, ?_, ?_⟩
  · rintro s ⟨-, fuel, result⟩
    obtain ⟨names, distinct⟩ := run_root_binds result
    refine ⟨names, ?_, distinct⟩
    rw [names.length_eq, declarations_of_nodup distinct]
    rfl
  · rintro v s ⟨-, fuel, result⟩
    obtain ⟨before, stmt, after, s₁, split, finished, returned, noted, names⟩ :=
      run_root_returned result
    exact ⟨before, stmt, after, split, ⟨s₁, fuel, ⟨nofun, fuel, finished⟩, returned⟩, noted, names⟩
  · rintro outcome s ⟨-, fuel, result⟩ ended inside - x - elsewhere bound
    rcases ended with rfl | ⟨v, rfl⟩
    · exact elsewhere ((run_root_binds result).1.mem_iff.1 bound)
    · obtain ⟨before, stmt, after, s₁, rfl, -, -, -, names⟩ := run_root_returned result
      apply elsewhere
      rw [names.mem_iff, mem_declarations] at bound
      rw [mem_declarations, lets, List.filterMap_append]
      exact List.mem_append_left _ bound

/-- Declares `x` at the top, `y` inside, and returns before it declares `z`. -/
def returning : Block := [.declare "x" (.bool true),
  .branch (.variable "x") [.declare "y" (.bool false), .result (.variable "y")] none,
  .declare "z" (.bool true)]

theorem run_leaves_declarations_returning :
    ∃ s, Ends returning { env := .root } (.returned (.bool false)) s ∧
      (∃ before, declarations before = ["x"] ∧ s.env.own.keys.Perm (declarations before)) ∧
      "y" ∉ s.env.own.keys := by
  let s := (run 0 returning { env := .root }).2
  have ends : Ends returning { env := .root } (.returned (.bool false)) s :=
    ⟨nofun, 0, Prod.ext (by decide) rfl⟩
  obtain ⟨-, returned, inside⟩ := run_leaves_declarations returning none
  obtain ⟨before, stmt, after, split, -, noted, names⟩ := returned _ _ ends
  have length : before.length = 1 := by
    have there : s.past.head? = some (.returned 2 (.bool false)) := by decide
    rw [there] at noted
    injection noted with noted
    injection noted with number
    omega
  refine ⟨s, ends, ⟨before, ?_, names⟩, ?_⟩
  · have first : before = returning.take 1 := by
      rw [split, List.take_left' length]
    rw [first]
    decide
  · exact inside _ s ends (.inr ⟨_, rfl⟩) [.declare "y" (.bool false), .result (.variable "y")]
      (by simp [returning, inner, Stmt.blocks]) "y" (by decide) (by decide)

end Block

end LetWhile
