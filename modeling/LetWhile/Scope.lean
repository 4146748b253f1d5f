import LetWhile.Dict
import LetWhile.Forest

namespace LetWhile

/-- The names that the blocks around a place declare, nearest block first. -/
abbrev Scope (α : Type) := List (Dict α)

namespace Scope

/-- Everything a name may stand for, nearest first. -/
def candidates {α : Type} (s : Scope α) (name : String) : List α := s.filterMap (·.get? name)

theorem candidates_cons {α : Type} (table : Dict α) (s : Scope α) (name : String) :
    candidates (table :: s) name = (table.get? name).toList ++ candidates s name := by
  rw [candidates, List.filterMap_cons]
  cases table.get? name <;> rfl

/-- What the nearest block declares under a name. -/
def own? {α : Type} (s : Scope α) (name : String) : Option α := s.head?.bind (·.get? name)

end Scope

/-- Tables that share the tables around them. -/
abbrev Tables (α : Type) := Forest (Dict α)

namespace Tables

variable {α : Type}

def table (t : Tables α) (i : Nat) : Dict α := (t.get? i).getD Dict.empty

/-- Adds an entry to one table; a later entry for the same name takes the place of the earlier. -/
def enter (t : Tables α) (i : Nat) (name : String) (a : α) : Tables α :=
  t.set i ((t.table i).insert name a)

def candidates (t : Tables α) (i : Nat) (name : String) : List α := Scope.candidates (t.chain i) name

theorem get?_eq_some_table {t : Tables α} {i : Nat} (there : i < t.size) :
    t.get? i = some (t.table i) := by
  obtain ⟨d, found⟩ := Option.isSome_iff_exists.1 (Forest.isSome_get?.2 there)
  rw [table, found]
  rfl

theorem table_add (t : Tables α) (parent : Option Nat) (i : Nat) :
    table (t.add parent Dict.empty) i = t.table i := by
  rw [table, table, Forest.get?_add]
  split
  · rename_i new
    have absent : t.get? i = none := by
      rw [← Option.not_isSome_iff_eq_none, Forest.isSome_get?]
      omega
    rw [absent]
    rfl
  · rfl

theorem table_set {t : Tables α} {k : Nat} (there : k < t.size) (d : Dict α) (i : Nat) :
    table (t.set k d) i = if i = k then d else t.table i := by
  rw [table, table, Forest.get?_set]
  split
  · rename_i same
    rw [same, get?_eq_some_table there]
    rfl
  · rfl

end Tables

end LetWhile
