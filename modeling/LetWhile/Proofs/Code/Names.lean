import LetWhile.Code.Render
import LetWhile.Proofs.Code.Fragment
import Mathlib.Data.List.Nodup

/-!
The names of blocks and of storage. A number behind a last dot tells the names of a kind apart,
whatever the variables of the program are called, and no stem of a label ends like the name of a
part of a slot.

Main result: `names_nodup`.
-/
namespace LetWhile.Code

theorem dot_notMem_toDigits (n : Nat) : '.' ∉ Nat.toDigits 10 n := by
  intro h
  have := Nat.isDigit_of_mem_toDigits (by decide) (by decide) h
  simp at this

/-- The part behind the last dot, and what is before it. -/
theorem append_dot_inj {xs ys ds es : List Char} (h : xs ++ '.' :: ds = ys ++ '.' :: es)
    (hd : '.' ∉ ds) (he : '.' ∉ es) : xs = ys ∧ ds = es := by
  obtain ⟨mid, rfl, cut⟩ | ⟨mid, rfl, cut⟩ := List.append_eq_append_iff.1 h
  · cases mid with
    | nil => simpa using cut
    | cons c mid =>
      refine absurd ?_ hd
      simp [(List.cons.inj cut).2]
  · cases mid with
    | nil => simpa [eq_comm] using cut
    | cons c mid =>
      refine absurd ?_ he
      simp [(List.cons.inj cut).2]

theorem numbered_toList (stem : String) (n : Nat) :
    (Label.numbered stem n).text.toList = stem.toList ++ '.' :: Nat.toDigits 10 n := by
  simp [Label.text, toString]

theorem Cell.name_toList (c : Cell) :
    c.name.toList =
      (c.slot.name.toList ++ '.' :: c.part.name.toList) ++ '.' :: Nat.toDigits 10 c.slot.index := by
  simp [Cell.name, toString]

theorem toDigits_injective {m n : Nat} (h : Nat.toDigits 10 m = Nat.toDigits 10 n) : m = n := by
  have := congrArg (fun ds => Nat.ofDigitChars 10 ds 0) h
  simpa using this

theorem Part.dot_notMem_name (p : Part) : '.' ∉ p.name.toList := by
  cases p <;> decide

theorem Part.name_injective {p q : Part} (h : p.name.toList = q.name.toList) : p = q := by
  cases p <;> cases q <;> first | rfl | exact absurd h (by decide)

theorem Cell.name_injective {c d : Cell} (h : c.name = d.name) : c = d := by
  have lists := congrArg String.toList h
  rw [Cell.name_toList, Cell.name_toList] at lists
  obtain ⟨before, digits⟩ := append_dot_inj lists (dot_notMem_toDigits _) (dot_notMem_toDigits _)
  obtain ⟨name, part⟩ := append_dot_inj before (Part.dot_notMem_name _) (Part.dot_notMem_name _)
  obtain ⟨⟨n, i⟩, p⟩ := c
  obtain ⟨⟨m, j⟩, q⟩ := d
  obtain rfl : n = m := String.toList_inj.1 name
  obtain rfl : i = j := toDigits_injective digits
  obtain rfl : p = q := Part.name_injective part
  rfl

/-- The labels of emitted code, the two of the frame around it included. -/
def Label.IsMade (l : Label) : Prop :=
  l = .plain "entry" ∨ l = done ∨ ∃ stem ∈ stems, l = .numbered stem l.rank

theorem Label.text_injective {l l' : Label} (hl : l.IsMade) (hl' : l'.IsMade)
    (h : l.text = l'.text) : l = l' := by
  have plain_ne (name stem : String) (n : Nat) (noDot : '.' ∉ name.toList) :
      (Label.plain name).text ≠ (Label.numbered stem n).text := by
    intro same
    have lists := congrArg String.toList same
    rw [numbered_toList] at lists
    exact noDot (by rw [show name.toList = _ from lists]; simp)
  obtain rfl | rfl | ⟨stem, _, made⟩ := hl <;> obtain rfl | rfl | ⟨stem', _, made'⟩ := hl'
  · rfl
  · exact absurd h (by decide)
  · exact absurd (made' ▸ h) (plain_ne _ _ _ (by decide))
  · exact absurd h (by decide)
  · rfl
  · exact absurd (made' ▸ h) (plain_ne _ _ _ (by decide))
  · exact absurd (made ▸ h).symm (plain_ne _ _ _ (by decide))
  · exact absurd (made ▸ h).symm (plain_ne _ _ _ (by decide))
  · rw [made, made'] at h
    have lists := congrArg String.toList h
    rw [numbered_toList, numbered_toList] at lists
    obtain ⟨stems, digits⟩ := append_dot_inj lists (dot_notMem_toDigits _) (dot_notMem_toDigits _)
    rw [made, made', String.toList_inj.1 stems, toDigits_injective digits]

/-- No stem of a label ends in a dot and the name of a part. -/
theorem stem_ne_name_part {stem : String} (h : stem ∈ stems) (name : List Char) (p : Part) :
    stem.toList ≠ name ++ '.' :: p.name.toList := by
  intro same
  have all : ∀ stem ∈ stems, ∀ p ∈ [Part.bound, .isBool, .num],
      ¬ ('.' :: p.name.toList <:+ stem.toList) := by decide
  exact all stem h p (by cases p <;> simp) ⟨name, same.symm⟩

theorem Label.text_ne_cell_name {l : Label} (hl : l.IsMade) (c : Cell) : l.text ≠ c.name := by
  intro same
  have lists := congrArg String.toList same
  rw [Cell.name_toList] at lists
  obtain rfl | rfl | ⟨stem, known, made⟩ := hl
  · exact absurd (show '.' ∈ "entry".toList by rw [show "entry".toList = _ from lists]; simp)
      (by decide)
  · exact absurd (show '.' ∈ "done".toList by rw [show "done".toList = _ from lists]; simp)
      (by decide)
  · rw [made, numbered_toList] at lists
    exact stem_ne_name_part known _ _
      (append_dot_inj lists (dot_notMem_toDigits _) (dot_notMem_toDigits _)).1

theorem nodup_slotsFrom (made : Nat) (names : List String) : (slotsFrom made names).Nodup := by
  induction names generalizing made with
  | nil => simp [slotsFrom]
  | cons name rest ih =>
    rw [slotsFrom, List.nodup_cons]
    refine ⟨fun h => ?_, ih _⟩
    have := (mem_slotsFrom h).2.1
    simp at this

theorem nodup_eraseDups (texts : List String) : texts.eraseDups.Nodup := by
  induction h : texts.length using Nat.strongRecOn generalizing texts with
  | ind n ih =>
    cases texts with
    | nil => simp
    | cons s rest =>
      rw [List.eraseDups_cons, List.nodup_cons]
      have shorter : (rest.filter fun t => !t == s).length < n := by
        have := List.length_filter_le (fun t => !t == s) rest
        simp only [List.length_cons] at h
        omega
      refine ⟨?_, ih _ shorter _ rfl⟩
      rw [List.mem_eraseDups, List.mem_filter]
      simp

theorem nodup_cells {slots : List Slot} (h : slots.Nodup) : (slots.flatMap Slot.cells).Nodup := by
  induction slots with
  | nil => simp
  | cons slot rest ih =>
    rw [List.nodup_cons] at h
    rw [List.flatMap_cons, List.nodup_append]
    refine ⟨by simp [Slot.cells], ih h.2, ?_⟩
    intro a ha b hb same
    obtain ⟨slot', hslot', hb⟩ := List.mem_flatMap.1 hb
    have own : a.slot = slot := by
      simp only [Slot.cells, List.mem_cons, List.not_mem_nil, or_false] at ha
      obtain rfl | rfl | rfl := ha <;> rfl
    have other : b.slot = slot' := by
      simp only [Slot.cells, List.mem_cons, List.not_mem_nil, or_false] at hb
      obtain rfl | rfl | rfl := hb <;> rfl
    exact h.1 (by rw [← own, same, other]; exact hslot')

/-- **No two blocks or pieces of storage have the same name.** -/
theorem names_nodup {ls : List Label} {cells : List Cell} (hl : ls.Nodup)
    (made : ∀ l ∈ ls, l.IsMade) (hc : cells.Nodup) :
    (ls.map Label.text ++ cells.map Cell.name).Nodup := by
  rw [List.nodup_append]
  refine ⟨?_, ?_, ?_⟩
  · exact hl.map_on fun l hl l' hl' => Label.text_injective (made l hl) (made l' hl')
  · exact hc.map fun c d => Cell.name_injective
  · simp only [List.mem_map]
    rintro _ ⟨l, hl, rfl⟩ _ ⟨c, hc, rfl⟩
    exact Label.text_ne_cell_name (made l hl) c

end LetWhile.Code
