import LetWhile.Proofs.Code.Names
import Mathlib.Data.List.Basic

/-!
# Linked tables

Every block has a table of its names, linked to the table of the block around it. Whatever is made
and entered in whatever order, a table lists its names as they were first entered, each with what
was entered last, and a search looks at the tables from the inside out. Main result:
`Built.follows_additions`, which carries this over to the table that a block is lowered with.

What was done is a list, the earliest first; the tables are compared with that list only. The steps
are `Reflects.new` and `Reflects.enter`.
-/

namespace LetWhile

namespace Forest

variable {α : Type} {f : Forest α}

/-- The contents around a node with this parent. -/
def around (f : Forest α) (parent : Option Nat) : List α := (parent.map f.chain).getD []

theorem chain_add {parent : Option Nat} (known : ∀ p, parent = some p → p < f.size) (a : α) :
    (f.add parent a).chain f.size = a :: f.around parent := by
  have new : (f.add parent a).get? f.size = some a := by
    rw [get?_add, if_pos rfl]
  rw [chain, path, parent?_add, if_pos rfl]
  cases parent with
  | none => simp [new, around]
  | some p =>
    have there := known p rfl
    obtain ⟨rest, path⟩ := f.path_eq_cons p
    have old : ∀ k ∈ f.path p, (f.add (some p) a).get? k = f.get? k := by
      intro k h
      rw [path, List.mem_cons] at h
      rw [get?_add, if_neg]
      obtain rfl | h := h
      · exact Nat.ne_of_lt there
      · exact Nat.ne_of_lt (Nat.lt_trans (lt_of_mem_path path h) there)
    simp only [there, if_true, path_add there]
    rw [List.filterMap_cons_some new, List.filterMap_congr old]
    rfl

/-- Only the front of a chain changes with the node it starts at. -/
theorem chain_set {k : Nat} {a : α} {outer : List α} (chain : f.chain k = a :: outer)
    (there : k < f.size) (b : α) : (f.set k b).chain k = b :: outer := by
  obtain ⟨c, found⟩ := Option.isSome_iff_exists.1 (isSome_get?.2 there)
  obtain ⟨rest, path⟩ := f.path_eq_cons k
  have new : (f.set k b).get? k = some b := by
    rw [get?_set, if_pos rfl, found]
    rfl
  have old : ∀ j ∈ rest, (f.set k b).get? j = f.get? j := by
    intro j h
    rw [get?_set, if_neg (Nat.ne_of_lt (lt_of_mem_path path h))]
  rw [Forest.chain, path, List.filterMap_cons_some found, List.cons.injEq] at chain
  rw [Forest.chain, path_set, path, List.filterMap_cons_some new, List.filterMap_congr old, chain.2]

end Forest

namespace Tables

variable {α : Type}

/-! ## Changes -/

inductive Change (α : Type) where
  | new (parent : Option Nat)
  | enter (i : Nat) (name : String) (a : α)

/-- The table that a change goes to is there. -/
def Knows (t : Tables α) : Change α → Prop
  | .new parent => ∀ p ∈ parent, p < t.size
  | .enter i _ _ => i < t.size

instance (t : Tables α) (c : Change α) : Decidable (t.Knows c) :=
  match c with
  | .new parent => inferInstanceAs (Decidable (∀ p ∈ parent, p < t.size))
  | .enter i _ _ => inferInstanceAs (Decidable (i < t.size))

def change (t : Tables α) : Change α → Tables α
  | .new parent => t.add parent Dict.empty
  | .enter i name a => t.enter i name a

/-- The tables that some changes lead to, the earliest change first. -/
inductive Built : List (Change α) → Tables α → Prop where
  | nil : Built [] Forest.empty
  | next {past : List (Change α)} {t : Tables α} (h : Built past t) (c : Change α)
      (knows : t.Knows c) : Built (past ++ [c]) (t.change c)

/-! ## What the changes say -/

/-- The parents of the tables, in the order in which these were made. -/
def parents (past : List (Change α)) : List (Option Nat) :=
  past.filterMap fun
    | .new parent => some parent
    | .enter _ _ _ => none

/-- What was entered into one table. -/
def entered (past : List (Change α)) (i : Nat) : List (String × α) :=
  past.filterMap fun
    | .new _ => none
    | .enter k name a => if k = i then some (name, a) else none

/-- What was entered last into one table under a name. -/
def latest? (past : List (Change α)) (i : Nat) (name : String) : Option α :=
  (entered past i).reverse.lookup name

/-- The tables from one table to its root. -/
inductive Outward (past : List (Change α)) : Nat → List Nat → Prop where
  | root {i : Nat} (top : (parents past)[i]? = some none) : Outward past i [i]
  | inside {i p : Nat} {outer : List Nat} (link : (parents past)[i]? = some (some p))
      (rest : Outward past p outer) : Outward past i (i :: outer)

section

variable {past : List (Change α)} {i : Nat}

theorem parents_new (past : List (Change α)) (parent : Option Nat) :
    parents (past ++ [.new parent]) = parents past ++ [parent] := by
  simp [parents]

theorem parents_enter (past : List (Change α)) (k : Nat) (name : String) (a : α) :
    parents (past ++ [.enter k name a]) = parents past := by
  simp [parents]

theorem entered_new (past : List (Change α)) (parent : Option Nat) (i : Nat) :
    entered (past ++ [.new parent]) i = entered past i := by
  simp [entered]

theorem entered_enter (past : List (Change α)) (k : Nat) (name : String) (a : α) (i : Nat) :
    entered (past ++ [.enter k name a]) i =
      if i = k then entered past i ++ [(name, a)] else entered past i := by
  by_cases same : i = k
  · simp [entered, same]
  · simp [entered, same, Ne.symm same]

theorem latest?_enter (past : List (Change α)) (k : Nat) (name : String) (a : α) (i : Nat)
    (x : String) :
    latest? (past ++ [.enter k name a]) i x =
      if i = k then if x = name then some a else latest? past i x else latest? past i x := by
  rw [latest?, latest?, entered_enter]
  by_cases same : i = k
  · rw [if_pos same, if_pos same, List.reverse_append, List.reverse_singleton,
      List.singleton_append, Dict.lookup_cons_ite]
  · rw [if_neg same, if_neg same]

theorem latest?_eq_none_iff {name : String} :
    latest? past i name = none ↔ name ∉ (entered past i).map Prod.fst := by
  rw [latest?, Dict.lookup_eq_none_iff_notMem, List.map_reverse, List.mem_reverse]

theorem Outward.unique {path other : List Nat} (h : Outward past i path)
    (h' : Outward past i other) : other = path := by
  induction h generalizing other with
  | root top =>
    cases h' with
    | root => rfl
    | inside link rest => rw [top] at link; cases link
  | inside link rest ih =>
    cases h' with
    | root top => rw [link] at top; cases top
    | inside link' rest' =>
      rw [link] at link'
      cases link'
      rw [ih rest']

end

/-! ## What the tables keep of it -/

/-- The tables hold what the changes say. -/
structure Reflects (past : List (Change α)) (t : Tables α) : Prop where
  parents : t.nodes.map Prod.fst = parents past
  /-- So a path ends. -/
  older : ∀ i p, t.parent? i = some p → p < i
  keys : ∀ i, (t.table i).keys = ((entered past i).map Prod.fst).eraseDups
  latest : ∀ i name, (t.table i).get? name = latest? past i name

/-- A name that is there is passed over, and a new one comes last. -/
theorem eraseDups_concat (names : List String) (name : String) :
    (names ++ [name]).eraseDups =
      if name ∈ names.eraseDups then names.eraseDups else names.eraseDups ++ [name] := by
  rw [List.eraseDups_append]
  by_cases there : name ∈ names
  · simp [there, List.removeAll]
  · simp [there, List.removeAll, List.eraseDups_cons]

namespace Reflects

variable {past : List (Change α)} {t : Tables α}

theorem empty : @Reflects α [] Forest.empty where
  parents := rfl
  older i p := by simp [Forest.parent?, Forest.empty]
  keys i := rfl
  latest i name := rfl

theorem new (h : Reflects past t) {parent : Option Nat} (knows : t.Knows (.new parent)) :
    Reflects (past ++ [.new parent]) (t.add parent Dict.empty) where
  parents := by
    rw [parents_new, ← h.parents, Forest.add]
    simp
  older i p link := by
    rw [Forest.parent?_add_eq_some_iff] at link
    obtain ⟨rfl, link⟩ | link := link
    · exact knows p link
    · exact h.older i p link
  keys i := by rw [table_add, entered_new, h.keys]
  latest i name := by rw [table_add, latest?, entered_new, h.latest, latest?]

theorem enter (h : Reflects past t) {k : Nat} {name : String} {a : α}
    (knows : t.Knows (.enter k name a)) :
    Reflects (past ++ [.enter k name a]) (t.enter k name a) where
  parents := by
    rw [parents_enter, ← h.parents, Tables.enter, Forest.set]
    apply List.ext_getElem?
    intro i
    simp only [List.getElem?_map, List.getElem?_modify]
    cases t.nodes[i]? with
    | none => rfl
    | some node => by_cases same : k = i <;> simp [same]
  older i p link := by
    rw [Tables.enter, Forest.parent?_set] at link
    exact h.older i p link
  keys i := by
    rw [Tables.enter, table_set knows, entered_enter]
    by_cases same : i = k
    · subst same
      rw [if_pos rfl, if_pos rfl, Dict.keys_insert, h.keys, List.map_append, List.map_singleton,
        eraseDups_concat]
    · rw [if_neg same, if_neg same, h.keys]
  latest i x := by
    rw [Tables.enter, table_set knows, latest?_enter]
    by_cases same : i = k
    · subst same
      rw [if_pos rfl, if_pos rfl, Dict.get?_insert, h.latest]
    · rw [if_neg same, if_neg same, h.latest]

theorem values (h : Reflects past t) (i : Nat) :
    (t.table i).values.map some =
      ((entered past i).map Prod.fst).eraseDups.map (latest? past i) := by
  rw [Dict.map_some_values, h.keys]
  exact List.map_congr_left fun name _ => h.latest i name

theorem outward (h : Reflects past t) {i : Nat} (there : i < t.size) :
    Outward past i (t.path i) := by
  induction i using Nat.strongRecOn with
  | ind i ih =>
    obtain ⟨node, found⟩ : ∃ node, t.nodes[i]? = some node :=
      ⟨_, List.getElem?_eq_getElem there⟩
    have link : (Tables.parents past)[i]? = some node.1 := by
      rw [← h.parents, List.getElem?_map, found]
      rfl
    have parent : t.parent? i = node.1 := by
      rw [Forest.parent?, found]
      rfl
    rw [Forest.path, parent]
    cases outer : node.1 with
    | none => exact .root (outer ▸ link)
    | some p =>
      have older := h.older i p (parent.trans outer)
      simp only [older, if_true]
      exact .inside (outer ▸ link) (ih p older (Nat.lt_trans older there))

end Reflects

theorem candidates_eq (t : Tables α) (i : Nat) (name : String) :
    t.candidates i name = (t.path i).filterMap fun k => (t.table k).get? name := by
  rw [candidates, Scope.candidates, Forest.chain, List.filterMap_filterMap]
  refine List.filterMap_congr fun k _ => ?_
  rw [table]
  cases t.get? k <;> rfl

theorem Built.reflects {past : List (Change α)} {t : Tables α} (h : Built past t) :
    Reflects past t := by
  induction h with
  | nil => exact .empty
  | next _ c knows ih =>
    cases c with
    | new parent => exact ih.new knows
    | enter i name a => exact ih.enter knows

/-! ## The table of a block -/

open Code (Slot slotsFrom tableFrom)

/-- Slots that are entered into one table, each under its name. -/
def entries (i : Nat) (slots : List Slot) : List (Change Slot) :=
  slots.map fun slot => .enter i slot.name slot

/-- Entering slots fills the front of a chain. -/
theorem Built.filled {past : List (Change Slot)} {t : Tables Slot} (h : Built past t) {i : Nat}
    {table : Dict Slot} {outer : Scope Slot} (chain : t.chain i = table :: outer)
    (there : i < t.size) (slots : List Slot) :
    ∃ u, Built (past ++ entries i slots) u ∧ u.size = t.size ∧
      u.chain i = slots.foldl (fun table slot => table.insert slot.name slot) table :: outer := by
  induction slots generalizing past t table with
  | nil => exact ⟨t, by simpa [entries] using h, rfl, chain⟩
  | cons slot rest ih =>
    have next := h.next (.enter i slot.name slot) there
    have front : t.table i = table := by
      rw [Forest.chain] at chain
      obtain ⟨outer', path⟩ := t.path_eq_cons i
      rw [path, List.filterMap_cons_some (get?_eq_some_table there), List.cons.injEq] at chain
      exact chain.1
    have filled : (t.change (.enter i slot.name slot)).chain i =
        table.insert slot.name slot :: outer := by
      rw [change, Tables.enter, front]
      exact Forest.chain_set chain there _
    have size : (t.change (.enter i slot.name slot)).size = t.size := Forest.size_set ..
    obtain ⟨u, built, same, chain⟩ := ih next filled (size.symm ▸ there)
    refine ⟨u, ?_, same.trans size, chain⟩
    simpa [entries] using built

/-- Slots with names of their own are kept as they come. -/
theorem values_foldl_insert {slots : List Slot} {table : Dict Slot}
    (nodup : (table.keys ++ slots.map Slot.name).Nodup) :
    (slots.foldl (fun table slot => table.insert slot.name slot) table).values =
      table.values ++ slots := by
  induction slots generalizing table with
  | nil => simp
  | cons slot rest ih =>
    have new : slot.name ∉ table.keys := by
      rw [List.map_cons, List.nodup_append] at nodup
      exact fun old => nodup.2.2 _ old _ List.mem_cons_self rfl
    have keys : (table.insert slot.name slot).keys = table.keys ++ [slot.name] := by
      rw [Dict.keys_insert, if_neg new]
    rw [List.foldl_cons, ih]
    · rw [Dict.values, Dict.entries_insert_of_new new]
      simp [Dict.values]
    · rw [keys]
      simpa using nodup

theorem values_tableFrom (made : Nat) (b : Block) :
    (tableFrom made b).values = slotsFrom made (Block.declarations b) := by
  have declared : (Block.declarations b).Nodup := Code.nodup_eraseDups _
  rw [tableFrom, values_foldl_insert]
  · rfl
  · simpa [Dict.keys, Dict.empty] using declared

/-- What a table lists and finds, and what a search from it finds, follows from what was entered into
it and into the tables around it. So the table that a block is lowered with, made as the changes at
the end say, lists one new slot for each name that the block declares, and has one for each
declaration in it. -/
theorem Built.follows_additions {past : List (Change Slot)} {t : Tables Slot} (h : Built past t) :
    (∀ i < t.size,
      (t.table i).values.map some =
        ((entered past i).map Prod.fst).eraseDups.map (latest? past i) ∧
      (∀ name, (t.table i).get? name = latest? past i name) ∧
      (∀ name, (t.table i).get? name = none ↔ name ∉ (entered past i).map Prod.fst) ∧
      ∃ path, Outward past i path ∧ (∀ other, Outward past i other → other = path) ∧
        ∀ name, t.candidates i name = path.filterMap fun k => latest? past k name) ∧
    (∀ parent, t.Knows (.new parent) → ∀ (b : Block) (c : Code.Counters),
      ∃ e table u, (Code.openScope (t.around parent) b).run c = .ok e ∧
        e.value = table :: t.around parent ∧
        Built (past ++ .new parent :: entries t.size e.slots) u ∧ u.chain t.size = e.value ∧
        table.values = e.slots ∧ e.slots.map Slot.name = Block.declarations b ∧ e.slots.Nodup ∧
        (∀ slot ∈ e.slots, c.slots < slot.index ∧ slot.index ≤ e.next.slots) ∧
        ∀ s ∈ b, ∀ name, s.declares? = some name →
          ∃ slot ∈ e.slots, slot.name = name ∧ table.get? name = some slot) := by
  have reflects := h.reflects
  constructor
  · intro i there
    refine ⟨reflects.values i, reflects.latest i, ?_, t.path i, reflects.outward there, ?_, ?_⟩
    · intro name
      rw [reflects.latest, latest?_eq_none_iff]
    · intro other outward
      exact (reflects.outward there).unique outward
    · intro name
      rw [candidates_eq]
      exact List.filterMap_congr fun k _ => reflects.latest k name
  · intro parent known b c
    have made := h.next (.new parent) known
    have chain : (t.change (.new parent)).chain t.size = Dict.empty :: t.around parent :=
      Forest.chain_add known _
    have there : t.size < (t.change (.new parent)).size := by
      rw [change, Forest.size_add]
      exact Nat.lt_succ_self _
    obtain ⟨u, built, -, opened⟩ := made.filled chain there (slotsFrom c.slots (Block.declarations b))
    refine ⟨_, _, u, Code.run_openScope _ b c, rfl, by simpa using built, opened,
      values_tableFrom _ _, Code.map_name_slotsFrom _ _, Code.nodup_slotsFrom _ _, ?_, ?_⟩
    · intro slot mem
      exact (Code.mem_slotsFrom mem).2
    · intro s mem name declares
      have declared := Code.declares_mem_declarations mem declares
      obtain ⟨slot, found⟩ := Option.isSome_iff_exists.1 (Code.isSome_get?_tableFrom declared)
      obtain ⟨new, named⟩ := Code.get?_tableFrom found
      exact ⟨slot, new, named, found⟩

/-- The name `x` is entered into two tables, and into the outer one once more. -/
def shadowing : List (Change Slot) := [
  .new none, .enter 0 "x" ⟨"x", 1⟩, .enter 0 "y" ⟨"y", 2⟩, .new (some 0), .enter 1 "x" ⟨"x", 3⟩,
  .enter 0 "x" ⟨"x", 4⟩]

theorem Built.follows_additions_shadowing :
    ∃ t, Built shadowing t ∧ (t.table 0).values = [⟨"x", 4⟩, ⟨"y", 2⟩] ∧
      t.candidates 1 "x" = [⟨"x", 3⟩, ⟨"x", 4⟩] ∧ (t.table 1).get? "y" = none ∧
      ∃ e table, (Code.openScope (t.around (some 1))
          [.declare "a" (.bool true), .declare "b" (.bool true), .declare "a" (.bool true)]).run
            ⟨0, 4, 0⟩ = .ok e ∧
        e.value = table :: t.around (some 1) ∧ table.values.map Slot.name = ["a", "b"] := by
  have built := (Built.nil : @Built Slot [] _)
    |>.next (.new none) (by decide)
    |>.next (.enter 0 "x" ⟨"x", 1⟩) (by decide)
    |>.next (.enter 0 "y" ⟨"y", 2⟩) (by decide)
    |>.next (.new (some 0)) (by decide)
    |>.next (.enter 1 "x" ⟨"x", 3⟩) (by decide)
    |>.next (.enter 0 "x" ⟨"x", 4⟩) (by decide)
  have built : Built shadowing _ := built
  obtain ⟨tables, opened⟩ := follows_additions built
  obtain ⟨listed, -, -, -⟩ := tables 0 (by decide)
  obtain ⟨-, -, absent, path, outward, -, found⟩ := tables 1 (by decide)
  obtain ⟨e, table, u, run, value, -, -, slots, names, -⟩ := opened (some 1) (by decide)
    [.declare "a" (.bool true), .declare "b" (.bool true), .declare "a" (.bool true)] ⟨0, 4, 0⟩
  have steps : path = [1, 0] :=
    Outward.unique (.inside (p := 0) rfl (.root rfl)) outward
  refine ⟨_, built, ?_, ?_, (absent "y").2 (by decide), e, table, run, value, ?_⟩
  · apply (List.map_inj_right fun _ _ => Option.some.inj).1
    rw [listed]
    decide
  · rw [found, steps]
    decide
  · rw [slots, names]
    decide

end Tables

end LetWhile
