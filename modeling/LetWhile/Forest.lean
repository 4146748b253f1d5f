namespace LetWhile

/-- Trees that grow by new roots and new children. A node is named by its index; a parent is always
older than its children. -/
structure Forest (α : Type) where
  nodes : List (Option Nat × α)

namespace Forest

variable {α : Type}

def empty : Forest α := ⟨[]⟩

def size (f : Forest α) : Nat := f.nodes.length

/-- Adds a node, which gets the index `f.size`. -/
def add (f : Forest α) (parent : Option Nat) (a : α) : Forest α := ⟨f.nodes ++ [(parent, a)]⟩

def get? (f : Forest α) (i : Nat) : Option α := f.nodes[i]?.map (·.2)

def parent? (f : Forest α) (i : Nat) : Option Nat := f.nodes[i]?.bind (·.1)

def set (f : Forest α) (i : Nat) (a : α) : Forest α := ⟨f.nodes.modify i fun n => (n.1, a)⟩

/-- The indices from a node to its root. -/
def path (f : Forest α) (i : Nat) : List Nat :=
  match f.parent? i with
  | some p => if p < i then i :: f.path p else [i]
  | none => [i]

/-- The contents from a node to its root. -/
def chain (f : Forest α) (i : Nat) : List α := (f.path i).filterMap f.get?

theorem nodes_add (f : Forest α) (parent : Option Nat) (a : α) (i : Nat) :
    (f.add parent a).nodes[i]? = if i = f.size then some (parent, a) else f.nodes[i]? := by
  rw [add, size, List.getElem?_append]
  split
  · rename_i old
    rw [if_neg (Nat.ne_of_lt old)]
  · rename_i new
    split
    · rename_i last
      simp [last]
    · rw [List.getElem?_singleton, if_neg (by omega), List.getElem?_eq_none (by omega)]

theorem get?_add (f : Forest α) (parent : Option Nat) (a : α) (i : Nat) :
    (f.add parent a).get? i = if i = f.size then some a else f.get? i := by
  rw [get?, nodes_add]
  split <;> rfl

theorem parent?_add (f : Forest α) (parent : Option Nat) (a : α) (i : Nat) :
    (f.add parent a).parent? i = if i = f.size then parent else f.parent? i := by
  rw [parent?, nodes_add]
  split <;> rfl

theorem parent?_add_eq_some_iff {f : Forest α} {parent : Option Nat} {a : α} {i p : Nat} :
    (f.add parent a).parent? i = some p ↔
      i = f.size ∧ parent = some p ∨ f.parent? i = some p := by
  rw [parent?_add]
  split
  · rename_i last
    have absent : f.parent? i = none := by
      rw [parent?, List.getElem?_eq_none (Nat.le_of_eq last.symm)]
      rfl
    rw [absent]
    simp [last]
  · rename_i old
    simp [old]

theorem get?_set (f : Forest α) (k : Nat) (a : α) (i : Nat) :
    (f.set k a).get? i = if i = k then (f.get? i).map fun _ => a else f.get? i := by
  rw [set, get?, get?, List.getElem?_modify]
  by_cases h : i = k
  · subst h
    cases f.nodes[i]? <;> simp
  · simp [h, Ne.symm h]

@[simp] theorem parent?_set (f : Forest α) (k : Nat) (a : α) (i : Nat) :
    (f.set k a).parent? i = f.parent? i := by
  rw [set, parent?, parent?, List.getElem?_modify]
  cases f.nodes[i]? with
  | none => rfl
  | some n => by_cases h : k = i <;> simp [h]

theorem isSome_get? {f : Forest α} {i : Nat} : (f.get? i).isSome ↔ i < f.size := by
  simp [get?, size]

/-- A path depends on who is whose parent only. -/
@[simp] theorem path_set (f : Forest α) (k : Nat) (a : α) (i : Nat) :
    (f.set k a).path i = f.path i := by
  fun_induction path f i with
  | case1 i p child older ih => rw [path, parent?_set, child]; simp [older, ih]
  | case2 i p child younger => rw [path, parent?_set, child]; simp [younger]
  | case3 i root => rw [path, parent?_set, root]

@[simp] theorem size_set (f : Forest α) (k : Nat) (a : α) : (f.set k a).size = f.size := by
  simp [size, set]

theorem path_eq_cons (f : Forest α) (i : Nat) : ∃ rest, f.path i = i :: rest := by
  fun_cases path f i with
  | case1 p child older => exact ⟨f.path p, rfl⟩
  | case2 p child younger => exact ⟨[], rfl⟩
  | case3 root => exact ⟨[], rfl⟩

theorem sorted_path (f : Forest α) (i : Nat) : (f.path i).Pairwise (· > ·) := by
  fun_induction path f i with
  | case1 i p child older ih =>
    obtain ⟨rest, path⟩ := f.path_eq_cons p
    refine List.pairwise_cons.2 ⟨?_, ih⟩
    rw [path] at ih ⊢
    intro k mem
    rcases List.mem_cons.1 mem with rfl | mem
    · exact older
    · exact Nat.lt_trans ((List.pairwise_cons.1 ih).1 k mem) older
  | case2 i p child younger => exact List.pairwise_singleton _ _
  | case3 i root => exact List.pairwise_singleton _ _

@[simp] theorem size_add (f : Forest α) (parent : Option Nat) (a : α) :
    (f.add parent a).size = f.size + 1 := by
  simp [size, add]

/-- The nodes around a node that is there are older ones that are there. -/
theorem lt_of_mem_path {f : Forest α} {i k : Nat} {rest : List Nat} (path : f.path i = i :: rest)
    (h : k ∈ rest) : k < i := by
  have sorted := f.sorted_path i
  rw [path, List.pairwise_cons] at sorted
  exact sorted.1 k h

theorem path_add {f : Forest α} {i : Nat} (there : i < f.size) (parent : Option Nat) (a : α) :
    (f.add parent a).path i = f.path i := by
  have kept (k : Nat) (old : k < f.size) : (f.add parent a).parent? k = f.parent? k := by
    rw [parent?_add, if_neg (Nat.ne_of_lt old)]
  fun_induction path f i with
  | case1 i p child older ih =>
    rw [path, kept i there, child]
    simp [older, ih (Nat.lt_trans older there)]
  | case2 i p child younger =>
    rw [path, kept i there, child]
    simp [younger]
  | case3 i root => rw [path, kept i there, root]

end Forest

end LetWhile
