import LetWhile.Sink
import Mathlib.Data.List.Basic

/-!
# Rows of writes

An output with room for `n` writes keeps the first `n` of a row, whether or not its writer stops at
the first that is refused (`Sink.row_eq`). Two rows behind one another are one row.
-/

namespace LetWhile.Sink

variable {α : Type} {s : Sink α} {row more : List α}

/-- All of the row is taken. -/
def Fits (s : Sink α) (row : List α) : Prop := ∀ n, s.room = some n → row.length ≤ n

/-- What is taken of a row. -/
def taken (s : Sink α) (row : List α) : List α := s.room.elim row row.take

/-- The output behind a row of writes. -/
def after (s : Sink α) (row : List α) : Sink α :=
  ⟨s.room.map (· - row.length), (s.taken row).reverse ++ s.written⟩

theorem after_nil (s : Sink α) : s.after [] = s := by
  obtain ⟨_ | n, written⟩ := s <;> simp [after, taken]

theorem write_unlimited (written : List α) (a : α) :
    (Sink.mk none written).write a = (true, ⟨none, a :: written⟩) := rfl

theorem write_refused (written : List α) (a : α) :
    (Sink.mk (some 0) written).write a = (false, ⟨some 0, written⟩) := rfl

theorem write_taken (n : Nat) (written : List α) (a : α) :
    (Sink.mk (some (n + 1)) written).write a = (true, ⟨some n, a :: written⟩) := rfl

/-- A row of writes, stopped at the first that is refused or not. -/
theorem row_eq (s : Sink α) (row : List α) :
    ((s.writeAll row).1 = true ↔ s.Fits row) ∧ (s.writeAll row).2 = s.after row ∧
      row.foldl offer s = s.after row := by
  induction row generalizing s with
  | nil => simp [writeAll, after_nil, Fits]
  | cons a rest ih =>
    obtain ⟨_ | _ | n, written⟩ := s
    · obtain ⟨fits, all, offers⟩ := ih ⟨none, a :: written⟩
      rw [writeAll, List.foldl_cons, offer, write_unlimited]
      refine ⟨fits.trans (by simp [Fits]), all.trans ?_, offers.trans ?_⟩ <;> simp [after, taken]
    · obtain ⟨-, -, offers⟩ := ih ⟨some 0, written⟩
      rw [writeAll, List.foldl_cons, offer, write_refused]
      refine ⟨by simp [Fits], by simp [after, taken], offers.trans ?_⟩
      simp [after, taken]
    · obtain ⟨fits, all, offers⟩ := ih ⟨some n, a :: written⟩
      rw [writeAll, List.foldl_cons, offer, write_taken]
      refine ⟨fits.trans (by simp [Fits]), all.trans ?_, offers.trans ?_⟩ <;> simp [after, taken]

theorem writeAll_of_fits (fits : s.Fits row) : s.writeAll row = (true, s.after row) :=
  Prod.ext ((s.row_eq row).1.2 fits) (s.row_eq row).2.1

theorem writeAll_of_not_fits (h : ¬ s.Fits row) : s.writeAll row = (false, s.after row) := by
  have refused : (s.writeAll row).1 = false := by
    rw [← Bool.not_eq_true, (s.row_eq row).1]
    exact h
  exact Prod.ext refused (s.row_eq row).2.1

theorem offers_eq (s : Sink α) (row : List α) : row.foldl offer s = s.after row := (s.row_eq row).2.2

theorem contents_after (s : Sink α) (row : List α) :
    (s.after row).contents = s.contents ++ s.taken row := by
  simp [contents, after]

theorem taken_of_fits (fits : s.Fits row) : s.taken row = row := by
  obtain ⟨_ | n, written⟩ := s
  · rfl
  · exact List.take_of_length_le (fits n rfl)

theorem taken_eq_self_iff : s.taken row = row ↔ s.Fits row := by
  refine ⟨fun h => ?_, taken_of_fits⟩
  rintro n room
  have length := congrArg List.length h
  rw [taken, room, Option.elim_some, List.length_take] at length
  omega

theorem fits_of_unlimited (unlimited : s.room = none) (row : List α) : s.Fits row := by
  intro n room
  rw [unlimited] at room
  cases room

theorem fits_append : s.Fits (row ++ more) ↔ s.Fits row ∧ (s.after row).Fits more := by
  obtain ⟨_ | n, written⟩ := s
  · simp [Fits, after]
  · simp only [Fits, after, Option.map_some, Option.some.injEq, forall_eq', List.length_append]
    omega

/-- There is no more room behind a row than before it. -/
theorem fits_of_fits_after (fits : (s.after row).Fits more) : s.Fits more := by
  rintro n room
  have rest := fits (n - row.length) (by rw [after, room]; rfl)
  omega

/-- When the same is taken before and behind a row, the row was refused or nothing else is. -/
theorem fits_of_taken_eq (some : s.taken row ≠ []) (same : (s.after row).taken more = s.taken more) :
    (s.after row).Fits more := by
  obtain ⟨_ | n, written⟩ := s
  · exact nofun
  · rintro k ⟨⟩
    change more.length ≤ n - row.length
    have length := congrArg List.length same
    simp only [after, taken, Option.map_some, Option.elim_some, List.length_take] at length
    rw [taken, Option.elim_some, ← List.length_pos_iff, List.length_take] at some
    omega

theorem after_append (s : Sink α) (row more : List α) :
    s.after (row ++ more) = (s.after row).after more := by
  obtain ⟨_ | n, written⟩ := s
  · simp [after, taken]
  · simp [after, taken, List.take_append, Nat.sub_sub]

/-- Behind a row that was not taken as a whole nothing is taken. -/
theorem after_of_not_fits (h : ¬ s.Fits row) (more : List α) :
    (s.after row).after more = s.after row := by
  obtain ⟨_ | n, written⟩ := s
  · exact absurd nofun h
  · have full : n - row.length = 0 := by
      simp only [Fits, Option.some.injEq, forall_eq'] at h
      omega
    simp [after, taken, full]

/-- An output changes with a row if it takes something of it. -/
theorem after_eq_self (h : (s.after row).contents = s.contents) : s.after row = s := by
  rw [contents_after, List.append_right_eq_self] at h
  obtain ⟨_ | n, written⟩ := s
  · rw [show row = [] from h, after_nil]
  · have none : n = 0 ∨ row.length = 0 := by
      have length := congrArg List.length h
      rw [taken, Option.elim_some, List.length_take, List.length_nil] at length
      omega
    have room : n - row.length = n := by omega
    rw [after, h, Option.map_some, room]
    rfl

end LetWhile.Sink
