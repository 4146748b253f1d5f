import LetWhile.Proofs.Run.Visible
import LetWhile.Scope
import Mathlib.Data.List.Basic
import Mathlib.Logic.Relation

/-!
# The history of a store

Frames that share the frames around them are changed from many places: a name that is assigned in
one frame is written further out, in the frame that is the nearest to bind it at that time, and a
declaration in between redirects what comes later. What a store holds and how it answers can still
be read off the history of its requests alone. Main result: `Store.Recorded.determines`.

The history speaks of frames by their indices and never looks into one. The step is
`Store.Reflects.serve`, and `Store.Reflects.binder?_eq_some_iff` carries it: the frame that the
search for a binding finds is the nearest of the history.
-/

namespace LetWhile

namespace Store

/-! ## Requests and their history -/

inductive Request where
  | root
  | child (frame : Nat)
  | declare (frame : Nat) (name : String) (v : Value)
  | assign (frame : Nat) (name : String) (v : Value)
  | get (frame : Nat) (name : String)
  deriving DecidableEq

inductive Answer where
  | made (frame : Nat)
  | done
  | found (v : Value)
  | refused (failure : Failure)
  deriving DecidableEq

/-- The frame that a request goes to is there. -/
def Knows (s : Store) : Request → Prop
  | .root => True
  | .child i | .declare i _ _ | .assign i _ _ | .get i _ => i < s.size

instance (s : Store) (request : Request) : Decidable (s.Knows request) :=
  match request with
  | .root => inferInstanceAs (Decidable True)
  | .child i | .declare i _ _ | .assign i _ _ | .get i _ => inferInstanceAs (Decidable (i < s.size))

/-- Takes over a changed store, or stays as it is. -/
def settle (s : Store) : Except Failure Store → Answer × Store
  | .ok changed => (.done, changed)
  | .error failure => (.refused failure, s)

def serve (s : Store) : Request → Answer × Store
  | .root => (.made s.size, s.add none Dict.empty)
  | .child i => (.made s.size, s.add (some i) Dict.empty)
  | .declare i x v => s.settle (s.declare i x v)
  | .assign i x v => s.settle (s.assign i x v)
  | .get i x =>
    match s.get i x with
    | .ok v => (.found v, s)
    | .error failure => (.refused failure, s)

abbrev Record := Request × Answer

/-- Requests with their answers, latest first. -/
abbrev History := List Record

/-- What a store was asked from the beginning on, and what it answered. -/
inductive Recorded : History → Store → Prop where
  | nil : Recorded [] Forest.empty
  | next {past : History} {s : Store} (h : Recorded past s) (request : Request)
      (knows : s.Knows request) :
      Recorded ((request, (s.serve request).1) :: past) (s.serve request).2

/-! ## What a history says -/

/-- Frame `i` was made as a child of frame `p`. -/
def Child (past : History) (i p : Nat) : Prop := (.child p, .made i) ∈ past

/-- Frame `f` is frame `i` or one of those around it. -/
def Around (past : History) : Nat → Nat → Prop := Relation.ReflTransGen (Child past)

/-- The name was declared in this very frame, with success. -/
def Declared (past : History) (f : Nat) (x : String) : Prop := ∃ v, (.declare f x v, .done) ∈ past

/-- Frame `f` is the first, from frame `i` on outwards, in which the name was declared. -/
@[mk_iff] inductive Nearest (past : History) (x : String) : Nat → Nat → Prop where
  | here {i : Nat} (declared : Declared past i x) : Nearest past x i i
  | outside {i p f : Nat} (declared : ¬ Declared past i x) (child : Child past i p)
      (nearest : Nearest past x p f) : Nearest past x i f

/-- A record that comes after a history gives a name in frame `f` a value: a declaration there that
succeeded, or an assignment somewhere for which `f` was the nearest frame. -/
def Writes (past : History) (f : Nat) (x : String) (v : Value) : Record → Prop
  | (.declare g y w, .done) => g = f ∧ y = x ∧ w = v
  | (.assign i y w, _) => Nearest past y i f ∧ y = x ∧ w = v
  | _ => False

def LastWrite : History → Nat → String → Value → Prop
  | [], _, _, _ => False
  | record :: past, f, x, v =>
    Writes past f x v record ∨ (∀ w, ¬ Writes past f x w record) ∧ LastWrite past f x v

/-- Why a request that comes after a history is refused. -/
inductive Barred (past : History) : Request → Failure → Prop where
  | declare {f : Nat} {x : String} {v : Value} (declared : Declared past f x) :
      Barred past (.declare f x v) (.redeclared x)
  | assign {i : Nat} {x : String} {v : Value} (unbound : ∀ f, Around past i f → ¬ Declared past f x) :
      Barred past (.assign i x v) (.undeclared x)
  | get {i : Nat} {x : String} (unbound : ∀ f, Around past i f → ¬ Declared past f x) :
      Barred past (.get i x) (.undeclared x)

section

variable {past : History} {record : Record} {i f : Nat} {x : String} {v : Value}

theorem around_iff : Around past i f ↔ f = i ∨ ∃ p, Child past i p ∧ Around past p f := by
  rw [Around, Relation.ReflTransGen.cases_head_iff, eq_comm]

theorem Declared.later (h : Declared past f x) : Declared (record :: past) f x :=
  h.imp fun _ mem => List.mem_cons_of_mem _ mem

theorem Nearest.declared (h : Nearest past x i f) : Declared past f x := by
  induction h with
  | here declared => exact declared
  | outside _ _ _ ih => exact ih

theorem Writes.declared (h : Writes past f x v record) : Declared (record :: past) f x := by
  unfold Writes at h
  split at h
  · obtain ⟨rfl, rfl, rfl⟩ := h
    exact ⟨_, List.mem_cons_self⟩
  · obtain ⟨nearest, rfl, rfl⟩ := h
    exact nearest.declared.later
  · exact h.elim

/-- A name has a last write in the frames in which it was declared. -/
theorem exists_lastWrite_iff : (∃ v, LastWrite past f x v) ↔ Declared past f x := by
  induction past with
  | nil => simp [LastWrite, Declared]
  | cons record past ih =>
    constructor
    · rintro ⟨v, writes | ⟨-, earlier⟩⟩
      · exact writes.declared
      · exact (ih.1 ⟨v, earlier⟩).later
    · intro declared
      by_cases writes : ∃ w, Writes past f x w record
      · obtain ⟨w, writes⟩ := writes
        exact ⟨w, .inl writes⟩
      · rw [not_exists] at writes
        obtain ⟨w, mem⟩ := declared
        rcases List.mem_cons.1 mem with rfl | mem
        · exact (writes w ⟨rfl, rfl, rfl⟩).elim
        · obtain ⟨v, earlier⟩ := ih.2 ⟨w, mem⟩
          exact ⟨v, .inr ⟨writes, earlier⟩⟩

end

/-! ## Frames -/

/-- The frame with this index; there is nothing in one that is not there. -/
def frame (s : Store) (i : Nat) : Frame := (s.get? i).getD Dict.empty

section

variable {s : Store} {i f k : Nat} {x : String} {v : Value}

theorem get?_eq_some_frame (there : k < s.size) : s.get? k = some (s.frame k) :=
  Tables.get?_eq_some_table there

theorem frame_add (s : Store) (parent : Option Nat) (f : Nat) :
    frame (s.add parent Dict.empty) f = s.frame f :=
  Tables.table_add s parent f

theorem frame_set (there : k < s.size) (a : Frame) (f : Nat) :
    frame (s.set k a) f = if f = k then a else s.frame f :=
  Tables.table_set there a f

/-- Only a frame that is there binds a name. -/
theorem lt_size_of_contains (h : (s.frame k).contains x) : k < s.size := by
  rw [← Forest.isSome_get?]
  cases there : s.get? k with
  | none => simp [frame, there, Dict.contains_eq_isSome] at h
  | some a => rfl

theorem declare_eq (s : Store) (f : Nat) (x : String) (v : Value) :
    s.declare f x v = if (s.frame f).contains x then .error (.redeclared x)
      else .ok (s.set f ((s.frame f).insert x v)) := by
  unfold declare Frame.declare frame
  cases ((s.get? f).getD Dict.empty).contains x <;> rfl

theorem binder?_eq (s : Store) (i : Nat) (x : String) :
    s.binder? i x = (s.path i).find? fun k => (s.frame k).contains x := rfl

theorem contains_of_binder? (h : s.binder? i x = some f) : (s.frame f).contains x := by
  rw [binder?_eq] at h
  have found := List.find?_some h
  exact found

/-- Looking a name up finds what the frame that binds it holds. -/
theorem find?_filterMap (s : Store) (x : String) (path : List Nat) :
    Env.find? x (path.filterMap s.get?) =
      (path.find? fun k => (s.frame k).contains x).bind fun f => (s.frame f).get? x := by
  induction path with
  | nil => rfl
  | cons k rest ih =>
    rw [List.find?_cons, Dict.contains_eq_isSome]
    cases there : s.get? k with
    | none => simp [frame, there, ih]
    | some a =>
      have same : s.frame k = a := by rw [frame, there]; rfl
      rw [List.filterMap_cons_some there, Env.find?_cons, same, ih]
      cases bound : a.get? x <;> simp [same, bound]

theorem find?_env (s : Store) (i : Nat) (x : String) :
    Env.find? x (s.env i).frames = (s.binder? i x).bind fun f => (s.frame f).get? x := by
  rw [binder?_eq, ← find?_filterMap, env]
  change _ = Env.find? x (s.chain i)
  split
  · rename_i chain
    rw [chain]
    rfl
  · rename_i own outer chain
    rw [chain, Env.frames]

theorem get_eq_ok_iff :
    s.get i x = .ok v ↔ ∃ f, s.binder? i x = some f ∧ (s.frame f).get? x = some v := by
  rw [get, Env.get, find?_env]
  cases s.binder? i x with
  | none => simp
  | some f => cases bound : (s.frame f).get? x <;> simp [bound]

theorem get_eq_error_iff {failure : Failure} :
    s.get i x = .error failure ↔ s.binder? i x = none ∧ failure = .undeclared x := by
  rw [get, Env.get, find?_env]
  cases binder : s.binder? i x with
  | none => simp [eq_comm]
  | some f =>
    have bound := contains_of_binder? binder
    rw [Dict.contains_eq_isSome] at bound
    obtain ⟨w, hw⟩ := Option.isSome_iff_exists.1 bound
    simp [hw]

end

/-! ## What a program sees

A program has the frames around it at hand and no indices. It does to them what the store does.
-/

section

variable {s : Store} {i : Nat}

theorem env_eq {rest : List Nat} (path : s.path i = i :: rest) (there : i < s.size) :
    s.env i = ⟨s.frame i, rest.map s.frame⟩ := by
  have outer : rest.filterMap s.get? = rest.map s.frame :=
    List.filterMap_eq_map_iff_forall_eq_some.2 fun k mem =>
      get?_eq_some_frame (Nat.lt_trans (Forest.lt_of_mem_path path mem) there)
  have chain : s.chain i = s.frame i :: rest.map s.frame := by
    rw [Forest.chain, path, List.filterMap_cons_some (get?_eq_some_frame there), outer]
  rw [env, chain]

theorem env_set {rest : List Nat} (path : s.path i = i :: rest) (there : i < s.size) (k : Nat)
    (a : Frame) :
    env (s.set k a) i = ⟨frame (s.set k a) i, rest.map (frame (s.set k a))⟩ :=
  env_eq (by rw [Forest.path_set, path]) (by rwa [Forest.size_set])

theorem map_frame_set {path : List Nat} {k : Nat} (there : k < s.size) (outside : k ∉ path)
    (a : Frame) : path.map (frame (s.set k a)) = path.map s.frame := by
  refine List.map_congr_left fun j mem => ?_
  rw [frame_set there, if_neg]
  rintro rfl
  exact outside mem

theorem env_declare (there : i < s.size) (x : String) (v : Value) :
    (s.declare i x v).map (env · i) = (s.env i).declare x v := by
  obtain ⟨rest, path⟩ := s.path_eq_cons i
  rw [env_eq path there, Env.declare, Frame.declare, declare_eq]
  cases (s.frame i).contains x with
  | true => rfl
  | false =>
    have sorted := s.sorted_path i
    rw [path, List.pairwise_cons] at sorted
    have outside : i ∉ rest := fun mem => Nat.lt_irrefl i (sorted.1 i mem)
    have seen := env_set path there i ((s.frame i).insert x v)
    rw [frame_set there, if_pos rfl, map_frame_set there outside] at seen
    exact congrArg Except.ok seen

/-- Along a path, the frame that binds a name is the one that an update changes. -/
theorem update?_map_frame (s : Store) (x : String) (v : Value) {path : List Nat}
    (nodup : path.Nodup) :
    Env.update? x v (path.map s.frame) =
      (path.find? fun k => (s.frame k).contains x).map fun k =>
        path.map (frame (s.set k ((s.frame k).insert x v))) := by
  induction path with
  | nil => rfl
  | cons k rest ih =>
    obtain ⟨outside, nodup⟩ := List.nodup_cons.1 nodup
    rw [List.map_cons, Env.update?, List.find?_cons, ih nodup]
    cases bound : (s.frame k).contains x with
    | true =>
      have there := lt_size_of_contains bound
      rw [if_pos rfl, Option.map_some, List.map_cons, frame_set there, map_frame_set there outside,
        if_pos rfl]
    | false =>
      cases binder : rest.find? fun k => (s.frame k).contains x with
      | none => rfl
      | some f =>
        have there : f < s.size := by
          have holds := List.find?_some binder
          exact lt_size_of_contains holds
        have other : k ≠ f := by
          rintro rfl
          exact outside (List.mem_of_find?_eq_some binder)
        simp [frame_set there, other]

theorem env_assign (there : i < s.size) (x : String) (v : Value) :
    (s.assign i x v).map (env · i) = (s.env i).assign x v := by
  obtain ⟨rest, path⟩ := s.path_eq_cons i
  have nodup : (s.path i).Nodup := (s.sorted_path i).imp Nat.ne_of_gt
  have update := s.update?_map_frame x v nodup
  rw [← binder?_eq, path, List.map_cons] at update
  rw [env_eq path there, Env.assign, Env.frames, update, assign]
  cases s.binder? i x with
  | none => rfl
  | some k => exact congrArg Except.ok (env_set path there k ((s.frame k).insert x v))

end

/-! ## Requests on frames -/

/-- What a request can do. -/
inductive Served (s : Store) : Request → Answer → Store → Prop where
  | root : Served s .root (.made s.size) (s.add none Dict.empty)
  | child (p : Nat) : Served s (.child p) (.made s.size) (s.add (some p) Dict.empty)
  | declare {f : Nat} {x : String} (v : Value) (new : (s.frame f).contains x = false) :
      Served s (.declare f x v) .done (s.set f ((s.frame f).insert x v))
  | redeclare {f : Nat} {x : String} (v : Value) (bound : (s.frame f).contains x) :
      Served s (.declare f x v) (.refused (.redeclared x)) s
  | assign {i f : Nat} {x : String} (v : Value) (binder : s.binder? i x = some f) :
      Served s (.assign i x v) .done (s.set f ((s.frame f).insert x v))
  | assignUnbound {i : Nat} {x : String} (v : Value) (unbound : s.binder? i x = none) :
      Served s (.assign i x v) (.refused (.undeclared x)) s
  | get {i f : Nat} {x : String} {v : Value} (binder : s.binder? i x = some f)
      (bound : (s.frame f).get? x = some v) : Served s (.get i x) (.found v) s
  | getUnbound {i : Nat} {x : String} (unbound : s.binder? i x = none) :
      Served s (.get i x) (.refused (.undeclared x)) s

theorem serve_served (s : Store) (request : Request) :
    Served s request (s.serve request).1 (s.serve request).2 := by
  cases request with
  | root => exact .root
  | child p => exact .child p
  | declare f x v =>
    rw [serve, declare_eq]
    cases bound : (s.frame f).contains x with
    | true => exact .redeclare v bound
    | false => exact .declare v bound
  | assign i x v =>
    rw [serve, Store.assign]
    cases binder : s.binder? i x with
    | none => exact .assignUnbound v binder
    | some f => exact .assign v binder
  | get i x =>
    rw [serve]
    cases result : s.get i x with
    | ok v =>
      obtain ⟨f, binder, bound⟩ := get_eq_ok_iff.1 result
      exact .get binder bound
    | error failure =>
      obtain ⟨unbound, rfl⟩ := get_eq_error_iff.1 result
      exact .getUnbound unbound

theorem Served.unchanged {s t : Store} {request : Request} {failure : Failure}
    (h : Served s request (.refused failure) t) : t = s := by
  cases h <;> rfl

/-! ## What a store keeps of its history -/

/-- The store holds what the history says. -/
structure Reflects (past : History) (s : Store) : Prop where
  child : ∀ i p, Child past i p ↔ s.parent? i = some p
  /-- So a path ends. -/
  older : ∀ i p, s.parent? i = some p → p < i
  /-- Which names a frame binds follows (`contains_iff`). -/
  value : ∀ f x v, (s.frame f).get? x = some v ↔ LastWrite past f x v

namespace Reflects

variable {past : History} {record : Record} {s t : Store} {request : Request} {answer : Answer}

theorem contains_iff (h : Reflects past s) (f : Nat) (x : String) :
    (s.frame f).contains x ↔ Declared past f x := by
  rw [Dict.contains_eq_isSome, Option.isSome_iff_exists, ← exists_lastWrite_iff]
  exact exists_congr (h.value f x)

/-- From the roots inwards. -/
theorem inwards (h : Reflects past s) {motive : Nat → Prop}
    (root : ∀ i, s.parent? i = none → s.path i = [i] → motive i)
    (inner : ∀ i p, s.parent? i = some p → s.path i = i :: s.path p → motive p → motive i)
    (i : Nat) : motive i := by
  induction i using Nat.strongRecOn with
  | ind i ih =>
    cases parent : s.parent? i with
    | none => exact root i parent (by rw [Forest.path, parent])
    | some p =>
      have older := h.older i p parent
      exact inner i p parent (by rw [Forest.path, parent]; simp [older]) (ih p older)

theorem mem_path_iff (h : Reflects past s) (i f : Nat) : f ∈ s.path i ↔ Around past i f := by
  induction i using h.inwards with
  | root i parent path =>
    rw [path, List.mem_singleton, around_iff]
    simp [h.child, parent]
  | inner i p parent path ih =>
    rw [path, List.mem_cons, ih, around_iff (i := i)]
    simp [h.child, parent]

theorem binder?_eq_some_iff (h : Reflects past s) (i f : Nat) (x : String) :
    s.binder? i x = some f ↔ Nearest past x i f := by
  induction i using h.inwards with
  | root i parent path =>
    rw [binder?_eq, path, nearest_iff, List.find?_cons]
    cases bound : (s.frame i).contains x <;>
      simp [h.child, parent, ← h.contains_iff, bound, eq_comm]
  | inner i p parent path ih =>
    rw [binder?_eq, path, nearest_iff, List.find?_cons, ← binder?_eq]
    cases bound : (s.frame i).contains x <;>
      simp [h.child, parent, ← h.contains_iff, bound, ih, eq_comm]

theorem binder?_eq_none_iff (h : Reflects past s) (i : Nat) (x : String) :
    s.binder? i x = none ↔ ∀ f, Around past i f → ¬ Declared past f x := by
  rw [binder?_eq, List.find?_eq_none]
  simp only [h.mem_path_iff, h.contains_iff]

theorem value_of_quiet (h : Reflects past s) (quiet : ∀ f x v, ¬ Writes past f x v record)
    (f : Nat) (x : String) (v : Value) :
    (s.frame f).get? x = some v ↔ LastWrite (record :: past) f x v := by
  rw [h.value]
  simp [LastWrite, quiet]

theorem value_of_write (h : Reflects past s) {g : Nat} {y : String} {w : Value} (there : g < s.size)
    (writes : ∀ f x v, Writes past f x v record ↔ g = f ∧ y = x ∧ w = v)
    (f : Nat) (x : String) (v : Value) :
    (frame (s.set g ((s.frame g).insert y w)) f).get? x = some v ↔
      LastWrite (record :: past) f x v := by
  rw [frame_set there, LastWrite, ← h.value]
  simp only [writes]
  by_cases place : g = f
  · subst place
    rw [if_pos rfl, Dict.get?_insert]
    by_cases name : y = x
    · simp [name]
    · simp [name, Ne.symm name]
  · simp [place, Ne.symm place]

/-- A frame gets its parent when it is made, and keeps it. -/
theorem child_served (h : Reflects past s) (served : Served s request answer t) (i p : Nat) :
    Child ((request, answer) :: past) i p ↔ t.parent? i = some p := by
  have before := h.child i p
  rw [Child] at before ⊢
  rw [List.mem_cons, before]
  cases served with
  | root => simp [Forest.parent?_add_eq_some_iff]
  | child q =>
    rw [Forest.parent?_add_eq_some_iff]
    simp [and_comm, eq_comm (a := p)]
  | declare v new => simp
  | redeclare v bound => simp
  | assign v binder => simp
  | assignUnbound v unbound => simp
  | get binder bound => simp
  | getUnbound unbound => simp

theorem older_served (h : Reflects past s) (knows : s.Knows request)
    (served : Served s request answer t) (i p : Nat) (parent : t.parent? i = some p) : p < i := by
  rw [← h.child_served served, Child, List.mem_cons] at parent
  rcases parent with new | old
  · -- Only a child gets a parent, and its parent was there before.
    cases served <;> cases new
    exact knows
  · exact h.older i p ((h.child i p).1 old)

theorem value_served (h : Reflects past s) (knows : s.Knows request)
    (served : Served s request answer t) :
    ∀ f x v, (t.frame f).get? x = some v ↔ LastWrite ((request, answer) :: past) f x v := by
  cases served with
  | root =>
    simp only [frame_add]
    exact h.value_of_quiet fun _ _ _ => id
  | child p =>
    simp only [frame_add]
    exact h.value_of_quiet fun _ _ _ => id
  | declare v new => exact h.value_of_write knows fun _ _ _ => Iff.rfl
  | redeclare v bound => exact h.value_of_quiet fun _ _ _ => id
  | @assign i g y w binder =>
    refine h.value_of_write (lt_size_of_contains (contains_of_binder? binder)) fun f x v => ?_
    rw [Writes, ← h.binder?_eq_some_iff, binder, Option.some.injEq]
  | @assignUnbound i y w unbound =>
    refine h.value_of_quiet fun f x v => ?_
    rw [Writes, ← h.binder?_eq_some_iff, unbound]
    simp
  | get binder bound => exact h.value_of_quiet fun _ _ _ => id
  | getUnbound unbound => exact h.value_of_quiet fun _ _ _ => id

theorem empty : Reflects [] Forest.empty where
  child i p := by simp [Child, Forest.parent?, Forest.empty]
  older i p := by simp [Forest.parent?, Forest.empty]
  value f x v := by simp [LastWrite, frame, Forest.get?, Forest.empty]

theorem serve (h : Reflects past s) (knows : s.Knows request) :
    Reflects ((request, (s.serve request).1) :: past) (s.serve request).2 :=
  let served := s.serve_served request
  { child := h.child_served served
    older := h.older_served knows served
    value := h.value_served knows served }

theorem refused_iff (h : Reflects past s) {failure : Failure} (served : Served s request answer t) :
    answer = .refused failure ↔ Barred past request failure := by
  constructor
  · rintro rfl
    cases served with
    | redeclare v bound => exact .declare ((h.contains_iff _ _).1 bound)
    | assignUnbound v unbound => exact .assign ((h.binder?_eq_none_iff _ _).1 unbound)
    | getUnbound unbound => exact .get ((h.binder?_eq_none_iff _ _).1 unbound)
  · intro barred
    cases barred with
    | declare declared =>
      rw [← h.contains_iff] at declared
      cases served with
      | declare v new => simp [new] at declared
      | redeclare v bound => rfl
    | assign unbound =>
      rw [← h.binder?_eq_none_iff] at unbound
      cases served with
      | assign v binder => simp [unbound] at binder
      | assignUnbound v unbound => rfl
    | get unbound =>
      rw [← h.binder?_eq_none_iff] at unbound
      cases served with
      | get binder bound => simp [unbound] at binder
      | getUnbound unbound => rfl

theorem found_iff (h : Reflects past s) {i : Nat} {x : String} {v : Value} :
    s.get i x = .ok v ↔ ∃ f, Nearest past x i f ∧ LastWrite past f x v := by
  simp only [get_eq_ok_iff, h.binder?_eq_some_iff, h.value]

end Reflects

theorem Recorded.reflects {past : History} {s : Store} (h : Recorded past s) : Reflects past s := by
  induction h with
  | nil => exact .empty
  | next _ request knows ih => exact ih.serve knows

/-- The history alone determines the names of a frame, their values, what is refused and for which
reason, and what is found. What is refused changes nothing. And a program that runs in a frame, which
has only the frames around it at hand, sees them change in the same way. -/
theorem Recorded.determines {past : History} {s : Store} (h : Recorded past s) :
    (∀ f x, x ∈ (s.frame f).keys ↔ Declared past f x) ∧
    (∀ f x v, (s.frame f).get? x = some v ↔ LastWrite past f x v) ∧
    (∀ request failure,
      (s.serve request).1 = .refused failure ↔ Barred past request failure) ∧
    (∀ request failure, (s.serve request).1 = .refused failure → (s.serve request).2 = s) ∧
    (∀ i x v, s.get i x = .ok v ↔ ∃ f, Nearest past x i f ∧ LastWrite past f x v) ∧
    (∀ i x v, i < s.size → (s.declare i x v).map (env · i) = (s.env i).declare x v ∧
      (s.assign i x v).map (env · i) = (s.env i).assign x v) := by
  have reflects := h.reflects
  refine ⟨?_, reflects.value, ?_, ?_, ?_, ?_⟩
  · intro f x
    rw [Dict.mem_keys_iff, ← Dict.contains_eq_isSome, reflects.contains_iff]
  · intro request failure
    exact reflects.refused_iff (s.serve_served request)
  · intro request failure refused
    have served := s.serve_served request
    rw [refused] at served
    exact served.unchanged
  · intro i x v
    exact reflects.found_iff
  · intro i x v there
    exact ⟨env_declare there x v, env_assign there x v⟩

/-- An assignment from frame 2 goes to frame 0 first; a declaration in frame 1 redirects the next. -/
def redirected : History := [
  (.declare 1 "x" (.bool true), .refused (.redeclared "x")),
  (.assign 2 "x" (.bool true), .done),
  (.declare 1 "x" (.bool false), .done),
  (.assign 2 "x" (.bool false), .done),
  (.declare 0 "x" (.bool true), .done),
  (.child 1, .made 2), (.child 0, .made 1), (.root, .made 0)]

theorem Recorded.determines_redirected :
    ∃ s, Recorded redirected s ∧
      LastWrite redirected 0 "x" (.bool false) ∧ LastWrite redirected 1 "x" (.bool true) ∧
      ¬ Declared redirected 2 "x" ∧
      (∃ f, Nearest redirected "x" 2 f ∧ LastWrite redirected f "x" (.bool true)) ∧
      Barred redirected (.get 2 "y") (.undeclared "y") := by
  have recorded := Recorded.nil
    |>.next .root (by decide +kernel)
    |>.next (.child 0) (by decide +kernel)
    |>.next (.child 1) (by decide +kernel)
    |>.next (.declare 0 "x" (.bool true)) (by decide +kernel)
    |>.next (.assign 2 "x" (.bool false)) (by decide +kernel)
    |>.next (.declare 1 "x" (.bool false)) (by decide +kernel)
    |>.next (.assign 2 "x" (.bool true)) (by decide +kernel)
    |>.next (.declare 1 "x" (.bool true)) (by decide +kernel)
  have told {past : History} {s : Store} (h : Recorded past s) (same : past = redirected) :
      Recorded redirected s := same ▸ h
  have history := told recorded (by decide +kernel)
  obtain ⟨names, values, refused, -, found, -⟩ := determines history
  refine ⟨_, history, (values 0 "x" _).1 ?_, (values 1 "x" _).1 ?_, mt (names 2 "x").2 ?_,
    (found 2 "x" _).1 ?_, (refused _ _).1 ?_⟩
  · decide +kernel
  · decide +kernel
  · decide +kernel
  · decide +kernel
  · decide +kernel

end Store

end LetWhile
