namespace LetWhile

/-- Named entries in the order in which their names were first inserted, no name twice. -/
structure Dict (α : Type) where
  entries : List (String × α)
  nodup : (entries.map Prod.fst).Nodup

namespace Dict

variable {α : Type}

def empty : Dict α := ⟨[], by simp⟩

def keys (d : Dict α) : List String := d.entries.map Prod.fst

def values (d : Dict α) : List α := d.entries.map Prod.snd

def get? (d : Dict α) (name : String) : Option α := d.entries.lookup name

def contains (d : Dict α) (name : String) : Bool := d.keys.contains name

theorem map_fst_replace (entries : List (String × α)) (name : String) (a : α) :
    (entries.map fun e => if e.1 = name then (name, a) else e).map Prod.fst =
      entries.map Prod.fst := by
  induction entries with
  | nil => rfl
  | cons e rest ih =>
    simp only [List.map_cons, ih]
    split <;> simp_all

theorem nodup_map_fst_append {entries : List (String × α)} {name : String} (a : α)
    (h : (entries.map Prod.fst).Nodup) (new : name ∉ entries.map Prod.fst) :
    ((entries ++ [(name, a)]).map Prod.fst).Nodup := by
  rw [List.map_append, List.nodup_append]
  refine ⟨h, by simp, ?_⟩
  intro x hx y hy
  simp only [List.map_cons, List.map_nil, List.mem_singleton] at hy
  subst hy
  intro heq
  exact new (heq ▸ hx)

/-- A name that is there keeps its place and gets the new entry; a new name comes last. -/
def insert (d : Dict α) (name : String) (a : α) : Dict α :=
  if h : d.contains name then
    ⟨d.entries.map fun e => if e.1 = name then (name, a) else e, by
      rw [map_fst_replace]; exact d.nodup⟩
  else
    ⟨d.entries ++ [(name, a)], nodup_map_fst_append a d.nodup (by simpa [contains, keys] using h)⟩

theorem lookup_cons_ite (key : String) (a : α) (rest : List (String × α)) (k : String) :
    ((key, a) :: rest).lookup k = if k = key then some a else rest.lookup k := by
  by_cases h : k = key
  · simp [h]
  · have hb : (k == key) = false := by simpa using h
    simp [List.lookup_cons, h, hb]

theorem lookup_replace (entries : List (String × α)) (name : String) (a : α) (k : String) :
    (entries.map fun e => if e.1 = name then (name, a) else e).lookup k =
      if k = name then (entries.lookup k).map fun _ => a else entries.lookup k := by
  induction entries with
  | nil => simp
  | cons e rest ih =>
    obtain ⟨key, b⟩ := e
    by_cases hn : key = name
    · by_cases hk : k = key <;> simp_all [lookup_cons_ite]
    · by_cases hk : k = key
      · simp_all
      · simp only [List.map_cons, hn, if_false, lookup_cons_ite, hk, ih]

theorem lookup_eq_none_iff_notMem {entries : List (String × α)} {name : String} :
    entries.lookup name = none ↔ name ∉ entries.map Prod.fst := by
  induction entries with
  | nil => simp
  | cons e rest ih =>
    obtain ⟨key, b⟩ := e
    rw [lookup_cons_ite, List.map_cons, List.mem_cons, not_or, ← ih]
    by_cases h : name = key <;> simp [h]

@[simp] theorem get?_empty (k : String) : (empty : Dict α).get? k = none := rfl

theorem get?_eq_none_iff {d : Dict α} {name : String} :
    d.get? name = none ↔ d.contains name = false := by
  rw [get?, lookup_eq_none_iff_notMem, contains, keys, Bool.eq_false_iff, ne_eq,
    List.contains_iff_mem]

theorem contains_eq_isSome (d : Dict α) (name : String) :
    d.contains name = (d.get? name).isSome := by
  cases h : d.get? name with
  | none => exact get?_eq_none_iff.1 h
  | some a =>
    cases hc : d.contains name with
    | true => rfl
    | false => cases h.symm.trans (get?_eq_none_iff.2 hc)

theorem nodup_keys (d : Dict α) : d.keys.Nodup := d.nodup

theorem mem_keys_iff {d : Dict α} {name : String} : name ∈ d.keys ↔ (d.get? name).isSome := by
  rw [← contains_eq_isSome, contains, List.contains_iff_mem]

theorem get?_insert (d : Dict α) (name : String) (a : α) (k : String) :
    (d.insert name a).get? k = if k = name then some a else d.get? k := by
  unfold insert
  split
  · rename_i h
    rw [get?, lookup_replace]
    by_cases hk : k = name
    · have hne : d.get? name ≠ none := mt get?_eq_none_iff.1 (by simp [h])
      obtain ⟨b, hb⟩ := Option.ne_none_iff_exists'.1 hne
      rw [get?] at hb
      simp [hk, hb]
    · simp [hk, get?]
  · rename_i h
    have hnone := get?_eq_none_iff.2 (Bool.eq_false_iff.2 h)
    rw [get?] at hnone
    by_cases hk : k = name <;> simp [get?, List.lookup_append, lookup_cons_ite, hk, hnone]

theorem lookup_eq_some_iff_mem {entries : List (String × α)}
    (nodup : (entries.map Prod.fst).Nodup) {name : String} {a : α} :
    entries.lookup name = some a ↔ (name, a) ∈ entries := by
  induction entries with
  | nil => simp
  | cons e rest ih =>
    obtain ⟨key, b⟩ := e
    rw [List.map_cons, List.nodup_cons] at nodup
    rw [lookup_cons_ite, List.mem_cons]
    by_cases h : name = key
    · subst h
      have absent : (name, a) ∉ rest := fun there =>
        nodup.1 (List.mem_map.2 ⟨(name, a), there, rfl⟩)
      simp [absent, eq_comm]
    · simp [h, ih nodup.2]

theorem mem_values_iff {d : Dict α} {a : α} : a ∈ d.values ↔ ∃ name, d.get? name = some a := by
  simp only [values, List.mem_map, Prod.exists, exists_eq_right, get?,
    lookup_eq_some_iff_mem d.nodup]

/-- The values stand in the order of their names. -/
theorem map_some_values (d : Dict α) : d.values.map some = d.keys.map d.get? := by
  rw [values, keys, List.map_map, List.map_map]
  refine List.map_congr_left fun e there => ?_
  have found := (lookup_eq_some_iff_mem d.nodup).2 there
  exact found.symm

theorem entries_insert_of_new {d : Dict α} {name : String} (new : name ∉ d.keys) (a : α) :
    (d.insert name a).entries = d.entries ++ [(name, a)] := by
  rw [insert, dif_neg (by simpa [contains] using new)]

theorem keys_insert (d : Dict α) (name : String) (a : α) :
    (d.insert name a).keys = if name ∈ d.keys then d.keys else d.keys ++ [name] := by
  split
  · rename_i there
    rw [insert, dif_pos (by simpa [contains] using there), keys, map_fst_replace, keys]
  · rename_i new
    rw [keys, entries_insert_of_new new, List.map_append, keys]
    rfl

/-- The entries in the order of their names. -/
def sorted (d : Dict α) : List (String × α) := d.entries.mergeSort fun a b => decide (a.1 ≤ b.1)

end Dict

end LetWhile
