import LetWhile.Proofs.Decimal

/-!
# Decimals on a grid

The decimals with one exponent are a grid. A grid has a decimal that names a double when one of its
two neighbours of the double does (`Decimal.exists_candidate_of_names`). The shortest decimal is on
the coarsest such grid: no decimal with a greater exponent names the double
(`Decimal.exponent_le_of_names`). Zero has no coarsest grid.
-/

namespace LetWhile

namespace Decimal

open Double

variable {code m : Nat} {e : Int}

theorem names_mul_pow (k : Nat) : Names ⟨m * 10 ^ k, e⟩ code ↔ Names ⟨m, e + k⟩ code := by
  induction k generalizing e with
  | zero => simp
  | succ k ih =>
    have exponent : e + (k + 1 : Nat) = e + 1 + k := by
      push_cast
      ring
    rw [Nat.pow_succ', Nat.mul_left_comm, names_ten, ih, exponent]

theorem lt_magnitude {code : Nat} (pos : 0 < code) : magnitude (code - 1) < magnitude code :=
  magnitude_strictMono (Nat.sub_lt pos Nat.one_pos)

theorem isExact_iff {d : Decimal} : isExact d code = true ↔
    d.digits * (powerOfTen d.exponent).1 * one = magnitude code * (powerOfTen d.exponent).2 := by
  simp [isExact]

/-- A decimal that is exactly the double names it. -/
theorem names_of_exact {d : Decimal} (exact : isExact d code = true) : Names d code := by
  have eq := isExact_iff.1 exact
  have twice : d.digits * (2 * (powerOfTen d.exponent).1 * one) =
      2 * (magnitude code * (powerOfTen d.exponent).2) := by
    rw [← eq]
    ring
  have scale := (powerOfTen_pos d.exponent).2
  have below : magnitude (code - 1) ≤ magnitude code := magnitude_strictMono.monotone (Nat.sub_le ..)
  have below := Nat.mul_le_mul_right (powerOfTen d.exponent).2 below
  have above := Nat.mul_lt_mul_of_pos_right (magnitude_lt_succ code) scale
  unfold Names
  rw [twice, contains_iff]
  simp only [interval, Nat.add_mul, decide_eq_false_iff_not]
  refine ⟨by omega, by omega, fun isOpen => ?_⟩
  have strict := Nat.mul_lt_mul_of_pos_right (@lt_magnitude code (by omega)) scale
  omega

theorem digits_pos_of_names (pos : 0 < code) (h : Names ⟨m, e⟩ code) : 0 < m := by
  by_contra zero
  obtain rfl : m = 0 := by omega
  obtain ⟨low, -, -⟩ := contains_iff.1 h
  rw [Nat.zero_mul] at low
  have some : 0 < (interval code).low :=
    Nat.add_pos_left (Nat.zero_lt_of_lt (lt_magnitude pos)) _
  have := Nat.mul_pos some (powerOfTen_pos e).2
  dsimp only at low
  omega

/-- Between a point that names a double and the double, all points name it. -/
theorem exists_candidate_of_names (pos : 0 < code) (h : Names ⟨m, e⟩ code) :
    ∃ d, candidate? (interval code) e = some d := by
  have below := Nat.mul_lt_mul_of_pos_right (lt_magnitude pos) (powerOfTen_pos e).2
  have above := Nat.mul_lt_mul_of_pos_right (magnitude_lt_succ code) (powerOfTen_pos e).2
  have pPos := (powerOfTen_pos e).1
  unfold Names at h
  apply exists_candidate_of_neighbour rfl rfl
  generalize powerOfTen e = power at *
  obtain ⟨p, q⟩ := power
  dsimp only at *
  have stepPos : 0 < 2 * p * one := Nat.mul_pos (Nat.mul_pos (by decide) pPos) Double.one_pos
  generalize 2 * p * one = step at *
  have floor := Nat.div_mul_le_self ((interval code).value * q) step
  have ceil := @Nat.lt_div_mul_add ((interval code).value * q) step stepPos
  have next : ((interval code).value * q / step + 1) * step =
      (interval code).value * q / step * step + step := Nat.succ_mul _ _
  obtain ⟨low, high, strict⟩ := contains_iff.1 h
  have lowest : (interval code).low * q < (interval code).value * q := by
    simp only [interval, Nat.add_mul, Nat.mul_assoc 2]
    omega
  have highest : (interval code).value * q < (interval code).high * q := by
    simp only [interval, Nat.add_mul, Nat.mul_assoc 2]
    omega
  rcases Nat.lt_or_ge ((interval code).value * q / step) m with beyond | within
  · have le := Nat.mul_le_mul_right step (Nat.succ_le_of_lt beyond)
    rw [Nat.succ_mul] at le
    refine .inr (contains_iff.2 ⟨by omega, by omega, fun isOpen => ?_⟩)
    have := strict isOpen
    omega
  · have le := Nat.mul_le_mul_right step within
    refine .inl (contains_iff.2 ⟨by omega, by omega, fun isOpen => ?_⟩)
    have := strict isOpen
    omega

/-! ## The leading digit -/

theorem lt_pow_length (n : Nat) : n < 10 ^ length n := by
  fun_induction length n with
  | case1 n small => exact small
  | case2 n large ih =>
    rw [Nat.pow_succ]
    omega

theorem places_lt {fuel n : Nat} (small : n < one) : n * 10 ^ places fuel n < 10 * one := by
  induction fuel generalizing n with
  | zero =>
    rw [places]
    omega
  | succ fuel ih =>
    rw [places]
    split
    · omega
    · rename_i more
      rw [Nat.pow_succ', ← Nat.mul_assoc]
      exact ih (Nat.lt_of_not_le more)

/-- A number is less than ten times the power of ten of its leading digit. -/
theorem lt_powerOfTen_leading (n : Nat) :
    n * (powerOfTen (leading n)).2 < 10 * ((powerOfTen (leading n)).1 * one) := by
  unfold leading
  split
  · rename_i le
    have lpos := (pow_length_le (Nat.div_pos le Double.one_pos)).2
    have hp : (powerOfTen ((length (n / one) : Int) - 1)).1 = 10 ^ (length (n / one) - 1) :=
      congrArg (Nat.pow 10) (by omega)
    have hq : (powerOfTen ((length (n / one) : Int) - 1)).2 = 1 :=
      congrArg (Nat.pow 10) (show _ = 0 by omega)
    have lt := (Nat.div_lt_iff_lt_mul Double.one_pos).1 (lt_pow_length (n / one))
    rw [hp, hq, Nat.mul_one, ← Nat.mul_assoc, ← Nat.pow_succ', Nat.succ_eq_add_one,
      Nat.sub_add_cancel lpos]
    exact lt
  · rename_i small
    have lt := @places_lt 323 n (Nat.lt_of_not_le small)
    generalize places 323 n = k at lt ⊢
    have hp : (powerOfTen (-(k : Int))).1 = 1 := congrArg (Nat.pow 10) (show _ = 0 by omega)
    have hq : (powerOfTen (-(k : Int))).2 = 10 ^ k := congrArg (Nat.pow 10) (by omega)
    rwa [hp, hq, Nat.one_mul]

/-- But for the least doubles, the neighbours of a double are nearer than a fifth of it. -/
theorem five_gaps_le (large : 10 ≤ code) :
    5 * magnitude (code + 1) ≤ magnitude code + 5 * magnitude (code - 1) := by
  obtain ⟨s, m, rfl, lt, normal⟩ := exists_eq_add code
  have unit : 0 < 2 ^ s := Nat.two_pow_pos s
  rw [magnitude_add (Nat.le_of_lt lt) normal, magnitude_succ lt normal]
  by_cases regular : 0 < m ∧ (s = 0 ∨ binade < m)
  · have pred := magnitude_pred regular.1 (Nat.le_of_lt lt) regular.2
    have ten : 10 ≤ m := by
      simp only [binade] at *
      omega
    have bound := Nat.mul_le_mul_right (2 ^ s) ten
    omega
  · obtain ⟨t, rfl⟩ : ∃ t, s = t + 1 := ⟨s - 1, by simp only [binade] at *; omega⟩
    obtain rfl : m = binade := by simp only [binade] at *; omega
    have pred := magnitude_pred_binade t
    simp only [binade] at *
    omega

/-- But for the least doubles, one decimal of the grid of the leading digit at most names a double. -/
theorem eq_of_names_leading (large : 10 ≤ code) {a b : Nat}
    (ha : Names ⟨a, leading (magnitude code)⟩ code)
    (hb : Names ⟨b, leading (magnitude code)⟩ code) : a = b := by
  have narrow : ∀ {a b : Nat}, Names ⟨a, leading (magnitude code)⟩ code →
      Names ⟨b, leading (magnitude code)⟩ code → ¬ a < b := by
    intro a b ha hb lt
    obtain ⟨low, -, -⟩ := contains_iff.1 ha
    obtain ⟨-, high, -⟩ := contains_iff.1 hb
    have lead := lt_powerOfTen_leading (magnitude code)
    dsimp only at low high
    generalize powerOfTen (leading (magnitude code)) = power at *
    obtain ⟨p, q⟩ := power
    dsimp only at *
    have step : 2 * p * one = 2 * (p * one) := Nat.mul_assoc 2 p one
    have apart := Nat.mul_le_mul_right (2 * p * one) (Nat.succ_le_of_lt lt)
    rw [Nat.succ_mul] at apart
    have gap := Nat.mul_le_mul_right q (five_gaps_le large)
    rw [Nat.add_mul, Nat.mul_assoc 5, Nat.mul_assoc 5] at gap
    simp only [interval, Nat.add_mul] at low high
    omega
  exact Nat.le_antisymm (Nat.not_lt.1 (narrow hb ha)) (Nat.not_lt.1 (narrow ha hb))

/-! ## The grid of the shortest decimal -/

theorem trim_spec (m : Nat) (e : Int) :
    ∃ j, m = (trim m e).digits * 10 ^ j ∧ (trim m e).exponent = e + (j : Nat) ∧
      (m ≠ 0 → (trim m e).digits % 10 ≠ 0) := by
  fun_induction trim m e with
  | case1 m e ten ih =>
    obtain ⟨j, digits, exponent, last⟩ := ih
    refine ⟨j + 1, ?_, ?_, ?_⟩
    · rw [Nat.pow_succ, ← Nat.mul_assoc, ← digits, Nat.div_mul_cancel]
      exact Nat.dvd_of_mod_eq_zero ten.2
    · rw [exponent]
      push_cast
      ring
    · intro _
      exact last (by omega)
  | case2 m e last =>
    refine ⟨0, by simp, by simp, fun nonzero ends => ?_⟩
    exact last ⟨nonzero, ends⟩

/-- The shortest decimal is found on the first grid, from the leading digit on, that has one. -/
theorem shortest_found (pos : 0 < code) :
    ∃ k m, candidate? (interval code) (leading (magnitude code) - (k : Nat)) = some m ∧
      (∀ i < k, candidate? (interval code) (leading (magnitude code) - (i : Nat)) = none) ∧
      shortest code = trim m (leading (magnitude code) - (k : Nat)) := by
  unfold shortest
  rw [if_neg (Nat.ne_of_gt pos)]
  dsimp only
  cases found : (List.range 17).findSome? fun (k : Nat) =>
      (candidate? (interval code) (leading (magnitude code) - (k : Int))).map
        (trim · (leading (magnitude code) - (k : Int))) with
  | none =>
    obtain ⟨m, hm⟩ := exists_candidate pos
    have missed := List.findSome?_eq_none_iff.1 found 16 (by decide)
    rw [hm] at missed
    cases missed
  | some d =>
    obtain ⟨before, k, behind, split, hk, missed⟩ := List.findSome?_eq_some_iff.1 found
    obtain ⟨m, hm, rfl⟩ := Option.map_eq_some_iff.1 hk
    refine ⟨k, m, hm, fun i lt => ?_, rfl⟩
    have sorted : (before ++ k :: behind).Pairwise (· < ·) := split ▸ List.pairwise_lt_range
    have mem : i ∈ before ++ k :: behind := by
      rw [← split, List.mem_range]
      have last : k ∈ List.range 17 := by simp [split]
      have := List.mem_range.1 last
      omega
    have early : i ∈ before := by
      rcases List.mem_append.1 mem with there | there
      · exact there
      · rcases List.mem_cons.1 there with rfl | there
        · omega
        · have := (List.pairwise_cons.1 (List.pairwise_append.1 sorted).2.1).1 i there
          omega
    exact Option.map_eq_none_iff.1 (missed i early)

/-- When a coarser grid than the one that was found has a decimal too, it was found at once. -/
theorem eq_zero_of_coarser (pos : 0 < code) {k a j : Nat} (later : 0 < j)
    (missed : ∀ i < k, candidate? (interval code) (leading (magnitude code) - (i : Nat)) = none)
    (names : Names ⟨a, leading (magnitude code) - (k : Nat) + (j : Nat)⟩ code) : k = 0 := by
  by_contra some
  rcases Nat.le_total j k with finer | coarser
  · have same : leading (magnitude code) - (k : Nat) + (j : Nat) =
        leading (magnitude code) - ((k - j : Nat) : Int) := by omega
    rw [same] at names
    obtain ⟨d, there⟩ := exists_candidate_of_names pos names
    rw [missed (k - j) (by omega)] at there
    cases there
  · have same : leading (magnitude code) - (k : Nat) + (j : Nat) =
        leading (magnitude code) - ((0 : Nat) : Int) + ((j - k : Nat) : Int) := by omega
    rw [same, ← names_mul_pow] at names
    obtain ⟨d, there⟩ := exists_candidate_of_names pos names
    rw [missed 0 (Nat.pos_of_ne_zero some)] at there
    cases there

/-- No decimal on a coarser grid names the double. -/
theorem not_names_coarser (pos : 0 < code) (a : Nat) :
    ¬ Names ⟨a, (shortest code).exponent + 1⟩ code := by
  intro names
  by_cases large : 10 ≤ code
  · obtain ⟨k, m, found, missed, eq⟩ := shortest_found pos
    obtain ⟨j, digits, exponent, last⟩ := trim_spec m (leading (magnitude code) - (k : Nat))
    have nonzero : m ≠ 0 := Nat.ne_of_gt (digits_pos_of_names pos (candidate?_names found))
    have next : (shortest code).exponent + 1 =
        leading (magnitude code) - (k : Nat) + (j + 1 : Nat) := by
      rw [eq, exponent]
      push_cast
      ring
    rw [next] at names
    obtain rfl := eq_zero_of_coarser pos (Nat.succ_pos j) missed names
    rw [Int.natCast_zero, Int.sub_zero] at found names
    rw [← names_mul_pow] at names
    have unique := eq_of_names_leading large names (candidate?_names found)
    apply last nonzero
    rw [Nat.pow_succ', ← Nat.mul_assoc, digits] at unique
    have tens := Nat.eq_of_mul_eq_mul_right (Nat.pow_pos (by decide)) unique
    rw [← tens]
    exact Nat.mul_mod_left a 10
  · have least : candidate? (interval code) ((shortest code).exponent + 1) = none := by
      interval_cases code <;> decide +kernel
    obtain ⟨d, there⟩ := exists_candidate_of_names pos names
    rw [least] at there
    cases there

theorem exponent_le_of_names (pos : 0 < code) (h : Names ⟨m, e⟩ code) :
    e ≤ (shortest code).exponent := by
  by_contra coarser
  obtain ⟨k, hk⟩ : ∃ k : Nat, e = (shortest code).exponent + 1 + k :=
    ⟨(e - (shortest code).exponent - 1).toNat, by omega⟩
  rw [hk, ← names_mul_pow] at h
  exact not_names_coarser pos _ h

end Decimal

end LetWhile
