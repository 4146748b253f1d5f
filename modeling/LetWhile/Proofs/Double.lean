import LetWhile.Double
import Mathlib

/-!
# Doubles

A double with a clear sign is known by its code (`Double.ofCode_code`). The code `s * binade + m` is
that of `m * 2 ^ s` units (`Double.magnitude_add`), and a quotient between the points half way to the
neighbours of a double is rounded to that double (`Double.nearest_of_between`).
-/

namespace LetWhile

namespace Double

section

open Float.Model (Format UnpackedFloat)
open Float.Model.UnpackedFloat (unpackExponent)

theorem toNat_unpackExponent (b : BitVec Format.binary64.numBits) :
    (unpackExponent b).toNat = b.toNat / 2 ^ 52 % 2 ^ 11 := by
  simp [unpackExponent, BitVec.extractLsb_toNat, Nat.shiftRight_eq_div_pow]

theorem unpackExponent_ne {b : BitVec Format.binary64.numBits}
    (h : (UnpackedFloat.unpack .binary64 b).isFinite = true) : unpackExponent b ≠ -1#11 := by
  intro ones
  rw [UnpackedFloat.unpack, if_pos ones] at h
  split at h <;> cases h

theorem isNaN_of_isFinite {x : Float} (h : x.isFinite = true) : x.isNaN = false := by
  have finite : x.toModel.unpack.isFinite = true := h
  show x.toModel.unpack.isNaN = false
  cases hx : x.toModel.unpack with
  | notANumber =>
    rw [hx] at finite
    cases finite
  | _ => rfl

theorem code_lt_infinity {x : Float} (h : x.isFinite = true) : code x < infinity := by
  obtain ⟨⟨bits, valid⟩⟩ := x
  have ones := unpackExponent_ne h
  have exponent : bits.toNat / 2 ^ 52 % 2 ^ 11 ≠ 2047 := by
    intro eq
    exact ones (BitVec.eq_of_toNat_eq ((toNat_unpackExponent _).trans eq))
  show bits.toNat % signBit < infinity
  simp only [signBit, infinity, binade]
  omega

theorem ofCode_code {x : Float} (sign : negative x = false) : ofCode false (code x) = x := by
  have small : x.toBits.toNat < signBit := by simpa [negative] using sign
  rw [ofCode, code, Nat.mod_eq_of_lt small, if_neg (by decide), UInt64.ofNat_toNat,
    Float.ofBits_toBits]

end

end Double

theorem roundHalfEven_eq {num den m : Nat} (pos : 0 < den) (low : 2 * (m * den) ≤ 2 * num + den)
    (high : 2 * num ≤ 2 * (m * den) + den)
    (odd : m % 2 = 1 → 2 * (m * den) < 2 * num + den ∧ 2 * num < 2 * (m * den) + den) :
    roundHalfEven num den = m := by
  have split := Nat.div_add_mod num den
  have rest := Nat.mod_lt num pos
  unfold roundHalfEven
  dsimp only
  generalize num / den = q at *
  generalize num % den = r at *
  have above : q ≤ m := by
    by_contra lt
    have := Nat.mul_le_mul_right den (show m + 1 ≤ q by omega)
    rw [Nat.add_mul, Nat.mul_comm q] at this
    omega
  have below : m ≤ q + 1 := by
    by_contra lt
    have := Nat.mul_le_mul_right den (show q + 2 ≤ m by omega)
    rw [Nat.add_mul, Nat.mul_comm q] at this
    omega
  obtain rfl | rfl : m = q ∨ m = q + 1 := by omega
  · rw [Nat.mul_comm m] at *
    split_ifs <;> omega
  · rw [Nat.add_mul, Nat.one_mul, Nat.mul_comm q] at *
    split_ifs <;> omega

namespace Double

theorem magnitude_code (field fraction : Nat) {code : Nat} (hfield : code / binade = field)
    (hfraction : code % binade = fraction) :
    magnitude code = if field = 0 then fraction else (binade + fraction) * 2 ^ (field - 1) := by
  simp only [magnitude, hfield, hfraction]
  rfl

/-- The code `s * binade + m` is that of `m * 2 ^ s` units. -/
theorem magnitude_add {s m : Nat} (le : m ≤ 2 * binade) (normal : s = 0 ∨ binade ≤ m) :
    magnitude (s * binade + m) = m * 2 ^ s := by
  rcases Nat.lt_or_ge m binade with lt | ge
  · obtain rfl : s = 0 := by omega
    rw [magnitude_code 0 m (by simp only [binade] at *; omega)
      (by simp only [binade] at *; omega)]
    simp
  · rcases Nat.lt_or_ge m (2 * binade) with lt | ge'
    · rw [magnitude_code (s + 1) (m - binade)
        (by simp only [binade] at *; omega) (by simp only [binade] at *; omega),
        if_neg (Nat.succ_ne_zero s), Nat.add_sub_cancel, Nat.add_sub_cancel' ge]
    · obtain rfl : m = 2 * binade := by omega
      rw [magnitude_code (s + 2) 0
        (by simp only [binade] at *; omega) (by simp only [binade] at *; omega),
        if_neg (Nat.succ_ne_zero _), show s + 2 - 1 = s + 1 from rfl, Nat.pow_succ]
      ring

/-- Every code is that of some `m * 2 ^ s`. -/
theorem exists_eq_add (code : Nat) :
    ∃ s m, code = s * binade + m ∧ m < 2 * binade ∧ (s = 0 ∨ binade ≤ m) := by
  refine ⟨code / binade - 1, code - (code / binade - 1) * binade, ?_, ?_, ?_⟩ <;>
    simp only [binade] <;> omega

theorem nearest_eq {num den s m : Nat} (hs : (num / den).log2 - 52 = s)
    (hm : roundHalfEven num (den * 2 ^ s) = m) : nearest num den = s * binade + m := by
  subst hs hm
  rfl

theorem log2_sub_eq {num den s : Nat} (pos : 0 < den)
    (low : s = 0 ∨ binade * (den * 2 ^ s) ≤ num) (high : num < 2 * binade * (den * 2 ^ s)) :
    (num / den).log2 - 52 = s := by
  have below : num / den < 2 ^ (52 + s + 1) := by
    rw [Nat.div_lt_iff_lt_mul pos]
    calc num < 2 * binade * (den * 2 ^ s) := high
      _ = 2 ^ (52 + s + 1) * den := by rw [show binade = 2 ^ 52 from rfl]; ring
  rcases Nat.eq_zero_or_pos s with rfl | spos
  · rcases Nat.eq_zero_or_pos (num / den) with zero | qpos
    · rw [zero]
      rfl
    · have := (Nat.log2_lt (Nat.ne_of_gt qpos)).2 below
      omega
  · have above : 2 ^ (52 + s) ≤ num / den := by
      rw [Nat.le_div_iff_mul_le pos]
      calc 2 ^ (52 + s) * den = binade * (den * 2 ^ s) := by
            rw [show binade = 2 ^ 52 from rfl]; ring
        _ ≤ num := by omega
    have qpos : num / den ≠ 0 := by
      have := Nat.two_pow_pos (52 + s)
      omega
    rw [(Nat.log2_eq_iff qpos).2 ⟨above, below⟩]
    omega

/-- A quotient nearer to `m * 2 ^ s` units than half the way to the next ones has the code
`s * binade + m`. -/
theorem nearest_eq_add {num den s m : Nat} (pos : 0 < den)
    (lowest : s = 0 ∨ binade * (den * 2 ^ s) ≤ num) (highest : num < 2 * binade * (den * 2 ^ s))
    (low : 2 * (m * (den * 2 ^ s)) ≤ 2 * num + den * 2 ^ s)
    (high : 2 * num ≤ 2 * (m * (den * 2 ^ s)) + den * 2 ^ s)
    (odd : m % 2 = 1 → 2 * (m * (den * 2 ^ s)) < 2 * num + den * 2 ^ s ∧
      2 * num < 2 * (m * (den * 2 ^ s)) + den * 2 ^ s) :
    nearest num den = s * binade + m :=
  nearest_eq (log2_sub_eq pos lowest highest)
    (roundHalfEven_eq (Nat.mul_pos pos (Nat.two_pow_pos s)) low high odd)

theorem magnitude_succ {s m : Nat} (lt : m < 2 * binade) (normal : s = 0 ∨ binade ≤ m) :
    magnitude (s * binade + m + 1) = m * 2 ^ s + 2 ^ s := by
  rw [Nat.add_assoc, magnitude_add (by omega) (by omega)]
  ring

theorem magnitude_pred {s m : Nat} (pos : 0 < m) (le : m ≤ 2 * binade)
    (normal : s = 0 ∨ binade < m) :
    magnitude (s * binade + m - 1) + 2 ^ s = m * 2 ^ s := by
  obtain ⟨k, rfl⟩ : ∃ k, m = k + 1 := ⟨m - 1, by omega⟩
  rw [← Nat.add_assoc, Nat.add_sub_cancel, magnitude_add (by omega) (by omega)]
  ring

/-- Below a power of two the codes are twice as dense. -/
theorem magnitude_pred_binade (s : Nat) :
    2 * magnitude ((s + 1) * binade + binade - 1) + 2 ^ (s + 1) = 2 * (binade * 2 ^ (s + 1)) := by
  rw [show (s + 1) * binade + binade - 1 = s * binade + (2 * binade - 1) by
    simp only [binade]; omega, magnitude_add (by omega) (by simp only [binade]; omega)]
  obtain ⟨k, hk⟩ : ∃ k, 2 * binade = k + 1 := ⟨2 * binade - 1, by simp only [binade]⟩
  rw [hk, Nat.add_sub_cancel, Nat.pow_succ]
  have : 2 * (binade * (2 ^ s * 2)) = (k + 1) * (2 ^ s * 2) := by rw [← hk]; ring
  rw [this]
  ring

theorem magnitude_lt_succ (code : Nat) : magnitude code < magnitude (code + 1) := by
  obtain ⟨s, m, rfl, lt, normal⟩ := exists_eq_add code
  have unit : 0 < 2 ^ s := Nat.two_pow_pos s
  rw [magnitude_add (Nat.le_of_lt lt) normal, magnitude_succ lt normal]
  omega

theorem magnitude_strictMono : StrictMono magnitude := strictMono_nat_of_lt_succ magnitude_lt_succ

theorem one_eq : one = 2 ^ 1074 := by decide +kernel

theorem one_pos : 0 < one := by
  rw [one_eq]
  apply Nat.two_pow_pos

theorem magnitude_infinity : magnitude infinity = 2 ^ 1024 * one := by decide +kernel

/-- Just below a power of two, where the distance of the doubles is half of that above it. -/
theorem nearest_below_binade {num den s : Nat} (pos : 0 < den)
    (below : num < binade * (den * 2 ^ (s + 1)))
    (low : (binade * 2 ^ (s + 1) + magnitude ((s + 1) * binade + binade - 1)) * den ≤ 2 * num) :
    nearest num den = (s + 1) * binade + binade := by
  obtain ⟨width, hwidth⟩ : ∃ width, den * 2 ^ s = width := ⟨_, rfl⟩
  have double : den * 2 ^ (s + 1) = 2 * width := by
    rw [← hwidth, Nat.pow_succ]
    ring
  rw [double] at below
  have wide : 0 < width := hwidth ▸ Nat.mul_pos pos (Nat.two_pow_pos s)
  have lower : 2 * ((binade * 2 ^ (s + 1) + magnitude ((s + 1) * binade + binade - 1)) * den) +
      2 * width = 8 * (binade * width) := by
    calc 2 * ((binade * 2 ^ (s + 1) + magnitude ((s + 1) * binade + binade - 1)) * den) + 2 * width
        = 2 * (binade * (den * 2 ^ (s + 1))) +
            (2 * magnitude ((s + 1) * binade + binade - 1) + 2 ^ (s + 1)) * den := by
          rw [← double]
          ring
      _ = 2 * (binade * (den * 2 ^ (s + 1))) + 2 * (binade * (den * 2 ^ (s + 1))) := by
          rw [magnitude_pred_binade]
          ring
      _ = 8 * (binade * width) := by
          rw [double]
          ring
  have more : width ≤ binade * width := Nat.le_mul_of_pos_left width (by decide)
  have scaled : 2 * binade * width = 2 * (binade * width) := Nat.mul_assoc 2 binade width
  have scaled' : binade * (2 * width) = 2 * (binade * width) := by ring
  have code : nearest num den = s * binade + 2 * binade := by
    refine nearest_eq_add pos (.inr ?_) ?_ ?_ ?_ ?_ <;> rw [hwidth] <;> omega
  rw [code]
  ring

/-- The double nearest to a quotient is the one whose neighbours are beyond the points half way to
them; of these points themselves, a double with an even code takes both. -/
theorem nearest_of_between {code num den : Nat} (pos : 0 < den)
    (low : (magnitude code + magnitude (code - 1)) * den ≤ 2 * num)
    (high : 2 * num ≤ (magnitude code + magnitude (code + 1)) * den)
    (odd : code % 2 = 1 → (magnitude code + magnitude (code - 1)) * den < 2 * num ∧
      2 * num < (magnitude code + magnitude (code + 1)) * den) :
    nearest num den = code := by
  obtain ⟨s, m, rfl, lt, normal⟩ := exists_eq_add code
  have parity : (s * binade + m) % 2 = m % 2 := by simp only [binade]; omega
  rw [parity, magnitude_add (Nat.le_of_lt lt) normal, magnitude_succ lt normal] at odd
  rw [magnitude_add (Nat.le_of_lt lt) normal] at low
  rw [magnitude_add (Nat.le_of_lt lt) normal, magnitude_succ lt normal] at high
  -- All is said in terms of `width`, the distance of the doubles around, and `m` times it.
  obtain ⟨width, hwidth⟩ : ∃ width, den * 2 ^ s = width := ⟨_, rfl⟩
  have wide : 0 < width := hwidth ▸ Nat.mul_pos pos (Nat.two_pow_pos s)
  have upper : (m * 2 ^ s + (m * 2 ^ s + 2 ^ s)) * den = 2 * (m * width) + width := by
    rw [← hwidth]
    ring
  rw [upper] at high odd
  have top := Nat.mul_le_mul_right width (show m + 1 ≤ 2 * binade by omega)
  rw [Nat.add_mul, Nat.one_mul] at top
  by_cases regular : 0 < m ∧ (s = 0 ∨ binade < m)
  · have lower : (m * 2 ^ s + magnitude (s * binade + m - 1)) * den + width = 2 * (m * width) := by
      calc (m * 2 ^ s + magnitude (s * binade + m - 1)) * den + width
          = m * 2 ^ s * den + (magnitude (s * binade + m - 1) + 2 ^ s) * den := by
            rw [← hwidth]
            ring
        _ = 2 * (m * width) := by
            rw [magnitude_pred regular.1 (Nat.le_of_lt lt) regular.2, ← hwidth]
            ring
    have bottom : s = 0 ∨ binade * width ≤ num := by
      refine regular.2.imp_right fun lt' => ?_
      have := Nat.mul_le_mul_right width (Nat.succ_le_of_lt lt')
      rw [Nat.succ_mul] at this
      omega
    refine nearest_eq_add pos ?_ ?_ ?_ ?_ ?_ <;> rw [hwidth] <;> omega
  · rcases Nat.eq_zero_or_pos s with rfl | spos
    · obtain rfl : m = 0 := by omega
      refine nearest_eq_add pos (.inl rfl) ?_ ?_ ?_ ?_ <;> rw [hwidth] <;> omega
    · obtain rfl : m = binade := by simp only [binade] at *; omega
      obtain ⟨s, rfl⟩ : ∃ t, s = t + 1 := ⟨s - 1, by omega⟩
      rcases Nat.lt_or_ge num (binade * width) with below | above
      · rw [← hwidth] at below
        exact nearest_below_binade pos below low
      · refine nearest_eq_add pos ?_ ?_ ?_ ?_ ?_ <;> rw [hwidth] <;> omega

/-- A double is the one nearest to itself. -/
theorem nearest_magnitude (code : Nat) : nearest (magnitude code) 1 = code := by
  have above := magnitude_lt_succ code
  have below : magnitude (code - 1) ≤ magnitude code := magnitude_strictMono.monotone (Nat.sub_le ..)
  apply nearest_of_between (by decide)
  · omega
  · omega
  · intro odd
    have pred : magnitude (code - 1) < magnitude code := magnitude_strictMono (by omega)
    omega

theorem roundHalfEven_bounds {num den m : Nat} (pos : 0 < den) (h : roundHalfEven num den = m) :
    2 * (m * den) ≤ 2 * num + den ∧ 2 * num ≤ 2 * (m * den) + den ∧
      (m % 2 = 1 → 2 * (m * den) < 2 * num + den ∧ 2 * num < 2 * (m * den) + den) := by
  have split := Nat.div_add_mod num den
  have rest := Nat.mod_lt num pos
  unfold roundHalfEven at h
  dsimp only at h
  generalize num / den = q at *
  generalize num % den = r at *
  rw [Nat.mul_comm] at split
  have next : (q + 1) * den = q * den + den := by ring
  split_ifs at h
  · subst h
    omega
  · subst h
    omega
  · rcases Nat.mod_two_eq_zero_or_one q with even | odd
    · rw [even, Nat.add_zero] at h
      subst h
      omega
    · rw [odd] at h
      subst h
      omega

/-- What a quotient is rounded to, in units of the distance of the doubles around it. -/
theorem nearest_parts (num : Nat) {den : Nat} (pos : 0 < den) :
    ∃ s m, nearest num den = s * binade + m ∧ roundHalfEven num (den * 2 ^ s) = m ∧
      m ≤ 2 * binade ∧ (s = 0 ∨ binade * (den * 2 ^ s) ≤ num) := by
  refine ⟨(num / den).log2 - 52, _, rfl, rfl, ?_, ?_⟩
  · generalize hs : (num / den).log2 - 52 = s
    obtain ⟨width, hwidth⟩ : ∃ width, den * 2 ^ s = width := ⟨_, rfl⟩
    have wide : 0 < width := hwidth ▸ Nat.mul_pos pos (Nat.two_pow_pos s)
    have quotient : num / den < 2 ^ (53 + s) :=
      Nat.lt_of_lt_of_le Nat.lt_log2_self (Nat.pow_le_pow_right (by decide) (by omega))
    have below : num < 2 * binade * width := by
      rw [Nat.div_lt_iff_lt_mul pos] at quotient
      calc num < 2 ^ (53 + s) * den := quotient
        _ = 2 * binade * width := by rw [← hwidth, show binade = 2 ^ 52 from rfl]; ring
    have near := (@roundHalfEven_bounds num width _ wide rfl).1
    show roundHalfEven num (den * 2 ^ s) ≤ 2 * binade
    rw [hwidth]
    by_contra more
    have top := Nat.mul_le_mul_right width (Nat.succ_le_of_lt (Nat.not_le.1 more))
    rw [Nat.succ_mul] at top
    omega
  · by_cases large : 52 < (num / den).log2
    · right
      have nonzero : num / den ≠ 0 := by
        intro zero
        simp [zero] at large
      have power : 2 ^ (num / den).log2 * den ≤ num :=
        (Nat.mul_le_mul_right den (Nat.log2_self_le nonzero)).trans (Nat.div_mul_le_self num den)
      calc binade * (den * 2 ^ ((num / den).log2 - 52))
          = 2 ^ (52 + ((num / den).log2 - 52)) * den := by
            rw [Nat.pow_add, show binade = 2 ^ 52 from rfl]
            ring
        _ = 2 ^ (num / den).log2 * den := by rw [Nat.add_sub_cancel' (Nat.le_of_lt large)]
        _ ≤ num := power
    · left
      omega

/-- A quotient is between the points half way to the neighbours of the double nearest to it. -/
theorem between_of_nearest {code num den : Nat} (pos : 0 < den) (h : nearest num den = code) :
    (magnitude code + magnitude (code - 1)) * den ≤ 2 * num ∧
      2 * num ≤ (magnitude code + magnitude (code + 1)) * den ∧
      (code % 2 = 1 → (magnitude code + magnitude (code - 1)) * den < 2 * num ∧
        2 * num < (magnitude code + magnitude (code + 1)) * den) := by
  obtain ⟨s, m, parts, rounded, le, above⟩ := nearest_parts num pos
  rw [parts] at h
  subst h
  obtain ⟨width, hwidth⟩ : ∃ width, den * 2 ^ s = width := ⟨_, rfl⟩
  rw [hwidth] at rounded above
  have wide : 0 < width := hwidth ▸ Nat.mul_pos pos (Nat.two_pow_pos s)
  obtain ⟨low, high, odd⟩ := roundHalfEven_bounds wide rounded
  have parity : (s * binade + m) % 2 = m % 2 := by simp only [binade]; omega
  have normal : s = 0 ∨ binade ≤ m := by
    rcases above with zero | above
    · exact .inl zero
    · right
      by_contra small
      have top := Nat.mul_le_mul_right width (Nat.succ_le_of_lt (Nat.not_le.1 small))
      rw [Nat.succ_mul] at top
      omega
  have value : magnitude (s * binade + m) * den = m * width := by
    rw [magnitude_add le normal, ← hwidth]
    ring
  have up : m * width + width ≤ magnitude (s * binade + m + 1) * den := by
    rcases Nat.lt_or_ge m (2 * binade) with lt | ge
    · rw [magnitude_succ lt normal, Nat.add_mul, ← magnitude_add le normal, value, ← hwidth,
        Nat.mul_comm den]
    · obtain rfl : m = 2 * binade := by omega
      have code : s * binade + 2 * binade + 1 = (s + 1) * binade + (binade + 1) := by ring
      rw [code, magnitude_add (by simp only [binade]; omega) (by omega), ← hwidth, Nat.pow_succ]
      have more : 2 * binade * (den * 2 ^ s) + den * 2 ^ s ≤
          (binade + 1) * (2 ^ s * 2) * den := by
        have : (binade + 1) * (2 ^ s * 2) * den =
            2 * binade * (den * 2 ^ s) + den * 2 ^ s + den * 2 ^ s := by ring
        omega
      exact more
  rw [parity, Nat.add_mul, Nat.add_mul, value]
  by_cases regular : 0 < m ∧ (s = 0 ∨ binade < m)
  · have down : magnitude (s * binade + m - 1) * den + width = m * width := by
      rw [← hwidth, Nat.mul_comm den, ← Nat.add_mul, magnitude_pred regular.1 le regular.2]
      ring
    refine ⟨by omega, by omega, fun one => ?_⟩
    have := odd one
    omega
  · rcases Nat.eq_zero_or_pos m with rfl | mpos
    · obtain rfl : s = 0 := by simp only [binade] at *; omega
      have zero : magnitude (0 * binade + 0 - 1) = 0 := by simp [magnitude]
      rw [zero]
      refine ⟨by omega, by omega, fun one => ?_⟩
      cases one
    · obtain rfl : m = binade := by omega
      have less : magnitude (s * binade + binade - 1) * den ≤ binade * width := by
        rw [← value]
        exact Nat.mul_le_mul_right den (magnitude_strictMono.monotone (Nat.sub_le ..))
      have least : binade * width ≤ num := above.resolve_left (by omega)
      refine ⟨by omega, by omega, fun one => ?_⟩
      cases one

end Double

end LetWhile
