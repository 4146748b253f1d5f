import LetWhile.Env
import LetWhile.Proofs.Code.Machine
import Mathlib.Data.List.Forall2

/-!
Frames and slots. A frame has the bindings of the declarations that have run; a table has a slot for
every declaration, bound or not. They match if each bound slot holds the value of its name, and the
nearest slot that is bound then stands for the nearest frame that has the name.

* `find_matches`      looking a name up finds the value of that slot
* `update_matches`    storing into that slot is an assignment
* `declare_matches`   binding a slot of the nearest table is a declaration
-/
namespace LetWhile

/-- The flag that tells booleans from numbers. -/
def Value.isBool : Value → Bool
  | .bool _ => true
  | .number _ => false

/-- A value as a double: booleans are 1 and 0. -/
def Value.payload : Value → Float
  | .bool b => if b then 1 else 0
  | .number x => x

namespace Code

/-- A slot stands for a binding, or for none as long as it is not bound. -/
def Slot.Holds (memory : Cell → Storage) (slot : Slot) : Option Value → Prop
  | none => memory ⟨slot, .bound⟩ = .holding (.bit false)
  | some v => memory ⟨slot, .bound⟩ = .holding (.bit true) ∧
    memory ⟨slot, .isBool⟩ = .holding (.bit v.isBool) ∧
    memory ⟨slot, .num⟩ = .holding (.double v.payload)

/-- The frame has exactly the names whose slots are bound. -/
def FrameMatches (memory : Cell → Storage) (table : Dict Slot) (frame : Frame) : Prop :=
  ∀ name, match table.get? name with
    | some slot => slot.Holds memory (frame.get? name)
    | none => frame.get? name = none

/-- Every table matches its frame, the nearest first. -/
def Matches (memory : Cell → Storage) (scope : Scope Slot) (frames : List Frame) : Prop :=
  List.Forall₂ (FrameMatches memory) scope frames

/-- Each slot is under its own name, and every table has later slots than the tables around it. -/
def Layered : Nat → Scope Slot → Prop
  | _, [] => True
  | made, table :: outer => ∃ below ≤ made, Layered below outer ∧
    ∀ name slot, table.get? name = some slot →
      slot.name = name ∧ below < slot.index ∧ slot.index ≤ made

def Slot.isBound (memory : Cell → Storage) (slot : Slot) : Bool :=
  decide (memory ⟨slot, .bound⟩ = .holding (.bit true))

/-- Memory that differs in the cells of the changed slots only. -/
def SameElsewhere (changed : Slot → Prop) (memory memory' : Cell → Storage) : Prop :=
  ∀ c, ¬ changed c.slot → memory' c = memory c

section

variable {memory memory' : Cell → Storage} {table : Dict Slot} {frame : Frame}
  {scope : Scope Slot} {frames : List Frame} {name : String} {slot : Slot} {v : Value}
  {changed : Slot → Prop}

theorem contains_iff {frame : Frame} : frame.contains name = true ↔ (frame.get? name).isSome := by
  rw [Dict.contains_eq_isSome]

theorem FrameMatches.holds (h : FrameMatches memory table frame)
    (here : table.get? name = some slot) : slot.Holds memory (frame.get? name) := by
  have := h name
  rwa [here] at this

theorem FrameMatches.absent (h : FrameMatches memory table frame)
    (here : table.get? name = none) : frame.get? name = none := by
  have := h name
  rwa [here] at this

theorem Slot.Holds.isBound_eq {binding : Option Value} (h : slot.Holds memory binding) :
    slot.isBound memory = binding.isSome := by
  cases binding with
  | none => simp [Slot.isBound, show memory ⟨slot, .bound⟩ = _ from h]
  | some v => simp [Slot.isBound, h.1]

/-- The nearest bound slot holds what the name stands for. -/
theorem find_matches (h : Matches memory scope frames) (name : String) :
    match (scope.candidates name).find? (Slot.isBound memory) with
    | some slot => ∃ v, Env.find? name frames = some v ∧ slot.Holds memory (some v)
    | none => Env.find? name frames = none := by
  induction h with
  | nil => rfl
  | @cons table frame scope frames here _ ih =>
    rw [Scope.candidates_cons, Env.find?]
    cases ht : table.get? name with
    | none =>
      have absent : frame.contains name = false := Dict.get?_eq_none_iff.1 (here.absent ht)
      simpa [absent] using ih
    | some slot =>
      have holds := here.holds ht
      rw [Option.toList_some, List.singleton_append, List.find?_cons, holds.isBound_eq]
      cases hf : frame.get? name with
      | none =>
        have absent : frame.contains name = false := Dict.get?_eq_none_iff.1 hf
        simpa [absent] using ih
      | some v =>
        have there : frame.contains name = true := contains_iff.2 (by simp [hf])
        rw [hf] at holds
        simpa [there] using holds

theorem Slot.Holds.elsewhere {other : Slot} {binding : Option Value}
    (h : other.Holds memory binding) (same : SameElsewhere changed memory memory')
    (unchanged : ¬ changed other) : other.Holds memory' binding := by
  cases binding with
  | none => exact (same ⟨other, .bound⟩ unchanged).trans h
  | some v =>
    obtain ⟨hb, hi, hn⟩ := h
    exact ⟨(same ⟨other, .bound⟩ unchanged).trans hb,
      (same ⟨other, .isBool⟩ unchanged).trans hi, (same ⟨other, .num⟩ unchanged).trans hn⟩

theorem FrameMatches.elsewhere (h : FrameMatches memory table frame)
    (same : SameElsewhere changed memory memory')
    (unchanged : ∀ name other, table.get? name = some other → ¬ changed other) :
    FrameMatches memory' table frame := by
  intro name
  have here := h name
  cases ht : table.get? name with
  | none => rwa [ht] at here
  | some other =>
    rw [ht] at here
    exact here.elsewhere same (unchanged name other ht)

theorem Layered.mono {made made' : Nat} (h : Layered made scope) (le : made ≤ made') :
    Layered made' scope := by
  cases scope with
  | nil => trivial
  | cons table outer =>
    obtain ⟨below, hb, layered, slots⟩ := h
    refine ⟨below, Nat.le_trans hb le, layered, ?_⟩
    intro name slot there
    obtain ⟨named, low, high⟩ := slots name slot there
    exact ⟨named, low, Nat.le_trans high le⟩

theorem Layered.index_le {made : Nat} (h : Layered made scope)
    (there : slot ∈ scope.candidates name) : slot.index ≤ made := by
  induction scope generalizing made with
  | nil => simp [Scope.candidates] at there
  | cons table outer ih =>
    obtain ⟨below, hb, layered, slots⟩ := h
    rw [Scope.candidates_cons, List.mem_append, Option.mem_toList] at there
    obtain own | outer := there
    · exact (slots name _ own).2.2
    · exact Nat.le_trans (ih layered outer) hb

/-- Slots that were made later are in no table of the scope. -/
theorem Matches.elsewhere {made : Nat} (h : Matches memory scope frames)
    (layered : Layered made scope) (same : SameElsewhere changed memory memory')
    (later : ∀ slot, changed slot → made < slot.index) : Matches memory' scope frames := by
  induction h generalizing made with
  | nil => exact .nil
  | @cons table frame scope frames here _ ih =>
    obtain ⟨below, hb, outer, slots⟩ := layered
    refine .cons ?_ (ih outer fun slot hs => Nat.lt_of_le_of_lt hb (later slot hs))
    apply here.elsewhere same
    intro name other there hs
    have low := (slots name _ there).2.2
    have high := later other hs
    omega

/-- Binding a slot of a table binds its name in the frame. -/
theorem FrameMatches.insert (h : FrameMatches memory table frame)
    (named : ∀ name slot, table.get? name = some slot → slot.name = name)
    (here : table.get? name = some slot) (same : SameElsewhere (· = slot) memory memory')
    (holds : slot.Holds memory' (some v)) : FrameMatches memory' table (frame.insert name v) := by
  intro other
  have before := h other
  rw [Dict.get?_insert]
  by_cases own : other = name
  · subst own
    simpa [here] using holds
  · cases ht : table.get? other with
    | none =>
      rw [ht] at before
      simpa [own] using before
    | some slot' =>
      rw [ht] at before
      simp only [own, if_false]
      apply Slot.Holds.elsewhere before same
      rintro rfl
      exact own ((named _ _ ht).symm.trans (named _ _ here))

/-- Storing into the nearest bound slot assigns to the name. -/
theorem update_matches {made : Nat} (h : Matches memory scope frames)
    (layered : Layered made scope)
    (found : (scope.candidates name).find? (Slot.isBound memory) = some slot)
    (same : SameElsewhere (· = slot) memory memory') (holds : slot.Holds memory' (some v)) :
    ∃ frames', Env.update? name v frames = some frames' ∧ Matches memory' scope frames' := by
  induction h generalizing made with
  | nil => simp [Scope.candidates] at found
  | @cons table frame scope frames here outer ih =>
    obtain ⟨below, hb, layered, slots⟩ := layered
    rw [Scope.candidates_cons] at found
    -- Not bound here: the slot found is further out, and this table has other slots.
    have further (absent : frame.contains name = false)
        (found : (Scope.candidates scope name).find? (Slot.isBound memory) = some slot) :
        ∃ frames', Env.update? name v (frame :: frames) = some frames' ∧
          Matches memory' (table :: scope) frames' := by
      obtain ⟨frames', updated, matches'⟩ := ih layered found
      have low : slot.index ≤ below := layered.index_le (List.mem_of_find?_eq_some found)
      refine ⟨frame :: frames', by simp [Env.update?, absent, updated], .cons ?_ matches'⟩
      apply here.elsewhere same
      rintro other own there rfl
      have := (slots other _ there).2.1
      omega
    cases ht : table.get? name with
    | none =>
      rw [ht] at found
      exact further (Dict.get?_eq_none_iff.1 (here.absent ht)) found
    | some own =>
      have own_holds := here.holds ht
      rw [ht] at found
      rw [Option.toList_some, List.singleton_append, List.find?_cons, own_holds.isBound_eq] at found
      cases hf : frame.get? name with
      | none =>
        rw [hf] at found
        exact further (Dict.get?_eq_none_iff.1 hf) found
      | some old =>
        rw [hf] at found
        obtain rfl : own = slot := by simpa using found
        have there : frame.contains name = true := contains_iff.2 (by simp [hf])
        have later : ∀ slot, slot = own → below < slot.index := by
          rintro slot rfl
          exact (slots name slot ht).2.1
        refine ⟨frame.insert name v :: frames, by simp [Env.update?, there], .cons ?_ ?_⟩
        · exact here.insert (fun name slot h => (slots name slot h).1) ht same holds
        · exact Matches.elsewhere outer layered same later

/-- Binding a slot of the nearest table declares its name. -/
theorem declare_matches {made : Nat} (h : Matches memory (table :: scope) (frame :: frames))
    (layered : Layered made (table :: scope)) (here : table.get? name = some slot)
    (same : SameElsewhere (· = slot) memory memory') (holds : slot.Holds memory' (some v)) :
    Matches memory' (table :: scope) (frame.insert name v :: frames) := by
  obtain ⟨below, hb, layered, slots⟩ := layered
  obtain ⟨own, outer⟩ := List.forall₂_cons.1 h
  have later : ∀ other, other = slot → below < other.index := by
    rintro other rfl
    exact (slots name other here).2.1
  refine .cons ?_ (Matches.elsewhere outer layered same later)
  exact own.insert (fun name slot h => (slots name slot h).1) here same holds

end

end Code

end LetWhile
