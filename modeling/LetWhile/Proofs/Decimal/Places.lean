import LetWhile.Proofs.Decimal.Grid

/-!
# Fixed numbers of places

A double may be written with the fewest digits that name it, or rounded to as few decimal places as
name it. The second never takes more than 1074 places (`Decimal.exists_places`), and the two are
spelled alike exactly when the shortest decimal is what the double is rounded to at as many places
(`Decimal.positional_fixed_iff`). It is so for a number below `2 ^ 53` that is no power of two below
one (`Decimal.rounded_of_magnitude_lt`); from there on only if the shortest decimal is exact
(`Decimal.rounded_iff_isExact`).
-/

namespace LetWhile

theorem roundHalfEven_mul {k : Nat} (pos : 0 < k) (num den : Nat) :
    roundHalfEven (k * num) (k * den) = roundHalfEven num den := by
  have twice (a : Nat) : 2 * (k * a) = k * (2 * a) := Nat.mul_left_comm 2 k a
  simp only [roundHalfEven, Nat.mul_div_mul_left _ _ pos, Nat.mul_mod_mul_left, twice,
    Nat.mul_lt_mul_left pos]

theorem roundHalfEven_whole (m : Nat) {den : Nat} (pos : 0 < den) :
    roundHalfEven (m * den) den = m := by
  apply roundHalfEven_eq pos
  · omega
  · omega
  · omega

namespace Decimal

open Double
open Text (isAsciiDigit)

variable {code p : Nat}

/-- The decimal with so many places that is nearest to the double with this code, the even one of
two. -/
def fixed (places code : Nat) : Decimal :=
  ⟨roundHalfEven (magnitude code * 10 ^ places) one, -(places : Int)⟩

@[simp] theorem fixed_digits (p code : Nat) :
    (fixed p code).digits = roundHalfEven (magnitude code * 10 ^ p) one := by
  rw [fixed]

@[simp] theorem fixed_exponent (p code : Nat) : (fixed p code).exponent = -(p : Int) := by
  rw [fixed]

theorem powerOfTen_neg (p : Nat) : powerOfTen (-(p : Int)) = (1, 10 ^ p) := by
  have whole : (-(p : Int)).toNat = 0 := by omega
  rw [powerOfTen, Int.neg_neg, whole, Int.toNat_natCast]
  rfl

instance (d : Decimal) (code : Nat) : Decidable (Names d code) :=
  inferInstanceAs (Decidable (_ = true))

/-! ## Enough places -/

/-- A unit has 1074 places. -/
theorem names_fixed_last (code : Nat) : Names (fixed 1074 code) code := by
  have power : 10 ^ 1074 = 5 ^ 1074 * one := by rw [one_eq, ← Nat.mul_pow]
  apply names_of_exact
  rw [isExact_iff, fixed_digits, fixed_exponent, powerOfTen_neg]
  dsimp only
  rw [power, ← Nat.mul_assoc, roundHalfEven_whole _ Double.one_pos, Nat.mul_one]

theorem exists_places (code : Nat) :
    ∃ p ≤ 1074, Names (fixed p code) code ∧ ∀ q < p, ¬ Names (fixed q code) code := by
  have exists_names : ∃ p, Names (fixed p code) code := ⟨1074, names_fixed_last code⟩
  refine ⟨Nat.find exists_names, Nat.find_min' exists_names (names_fixed_last code),
    Nat.find_spec exists_names, ?_⟩
  intro q before
  exact Nat.find_min exists_names before

theorem magnitude_lt {code : Nat} (finite : code < infinity) :
    magnitude code < 2 ^ 1024 * one :=
  magnitude_infinity ▸ magnitude_strictMono finite

/-- The greatest double has 309 digits before the point. -/
theorem fixed_digits_lt (finite : code < infinity) (p : Nat) :
    (fixed p code).digits < 10 ^ (309 + p) := by
  have digits : (2 : Nat) ^ 1024 < 10 ^ 309 := by decide +kernel
  have below : magnitude code * 10 ^ p / one < 2 ^ 1024 * 10 ^ p := by
    rw [Nat.div_lt_iff_lt_mul Double.one_pos, Nat.mul_right_comm]
    exact Nat.mul_lt_mul_of_pos_right (magnitude_lt finite) (Nat.pow_pos (by decide))
  have above := Nat.mul_lt_mul_of_pos_right digits (Nat.pow_pos (n := p) (show 0 < 10 by decide))
  rw [Nat.pow_add]
  rw [fixed_digits]
  rcases roundHalfEven_cases (magnitude code * 10 ^ p) one with eq | eq
  · omega
  · omega

/-- A sign, a point and a place for the end of the text are not counted here. -/
theorem length_positional_fixed (finite : code < infinity) (p : Nat) :
    (fixed p code).positional.length ≤ 310 + p := by
  have length : (Nat.toDigits 10 (fixed p code).digits).length ≤ 309 + p :=
    (Nat.length_toDigits_le_iff (by decide) (by omega)).2 (fixed_digits_lt finite p)
  unfold positional
  dsimp only
  rw [fixed_exponent]
  generalize Nat.toDigits 10 (fixed p code).digits = ds at *
  split
  · simp only [List.cons_append, List.length_cons, List.length_append, List.length_replicate]
    omega
  · split
    · simp only [List.length_append, List.length_replicate]
      omega
    · simp only [List.length_append, List.length_cons, List.length_take, List.length_drop]
      omega

/-! ## Spelling -/

theorem toDigits_mul_pow {m : Nat} (pos : 0 < m) (k : Nat) :
    Nat.toDigits 10 (m * 10 ^ k) = Nat.toDigits 10 m ++ List.replicate k '0' := by
  induction k with
  | zero => simp
  | succ k ih =>
    have digit := Nat.toDigits_append_toDigits (b := 10) (d := 0) (by decide)
      (Nat.mul_pos pos (Nat.pow_pos (n := k) (show 0 < 10 by decide))) (by decide)
    rw [Nat.add_zero, ih, Nat.toDigits_zero, List.append_assoc] at digit
    rw [Nat.pow_succ', Nat.mul_left_comm, ← digit, List.replicate_succ']

/-- Zeros at the end of a whole number are spelled. -/
theorem positional_mul_pow {m : Nat} (pos : 0 < m) (k : Nat) :
    positional ⟨m * 10 ^ k, 0⟩ = positional ⟨m, k⟩ := by
  have long : 0 < (Nat.toDigits 10 m).length := List.length_pos_iff.2 Nat.toDigits_ne_nil
  have long' : 0 < (Nat.toDigits 10 (m * 10 ^ k)).length :=
    List.length_pos_iff.2 Nat.toDigits_ne_nil
  unfold positional
  dsimp only
  rw [if_neg (by omega), if_pos (by omega), if_neg (by omega), if_pos (by omega),
    toDigits_mul_pow pos, List.append_assoc, ← List.replicate_add]
  congr 2
  simp only [List.length_append, List.length_replicate]
  omega

/-- Two decimals are spelled alike only as the same whole number, or with as many places. -/
theorem eq_of_positional {d d' : Decimal} (h : d.positional = d'.positional) :
    (0 ≤ d.exponent ∧ 0 ≤ d'.exponent ∧
      d.digits * 10 ^ d.exponent.toNat = d'.digits * 10 ^ d'.exponent.toNat) ∨
    (d.exponent < 0 ∧ d = d') := by
  have notDigit {ds : List Char} (digits : ∀ c ∈ ds, isAsciiDigit c = true) : '.' ∉ ds := by
    intro there
    cases digits '.' there
  rcases d.positional_spelled with ⟨ds, spelled, -, digits, whole, value⟩ |
    ⟨ds, ps, spelled, -, some, digits, places, exponent, value⟩
  · rcases d'.positional_spelled with ⟨ds', spelled', -, -, whole', value'⟩ |
      ⟨ds', ps', spelled', -, -, -, -, -, -⟩
    · left
      rw [h, spelled'] at spelled
      rw [← value, ← value', spelled]
      exact ⟨whole, whole', rfl⟩
    · rw [h, spelled'] at spelled
      exact (notDigit digits (by simp [← spelled])).elim
  · rcases d'.positional_spelled with ⟨ds', spelled', -, digits', -, -⟩ |
      ⟨ds', ps', spelled', -, -, -, -, exponent', value'⟩
    · rw [← h, spelled] at spelled'
      exact (notDigit digits' (by simp [← spelled'])).elim
    · right
      rw [spelled, spelled',
        List.append_cons_inj_of_notMem (notDigit digits) (notDigit places)] at h
      obtain ⟨rfl, -, rfl⟩ := h
      have long := List.length_pos_iff.2 some
      refine ⟨by omega, ?_⟩
      obtain ⟨n, e⟩ := d
      obtain ⟨n', e'⟩ := d'
      dsimp only at *
      rw [← value, ← value', show e = e' by omega]

theorem eq_iff {d d' : Decimal} : d = d' ↔ d.digits = d'.digits ∧ d.exponent = d'.exponent := by
  cases d
  cases d'
  rw [Decimal.mk.injEq]

theorem shortest_zero : shortest 0 = ⟨0, 0⟩ := by
  rw [shortest, if_pos rfl]

theorem pos_of_places (neg : (shortest code).exponent < 0) : 0 < code := by
  rcases Nat.eq_zero_or_pos code with rfl | pos
  · rw [shortest_zero] at neg
    cases neg
  · exact pos

/-- The shortest decimal is what the double is rounded to at as many places. -/
def Rounded (code : Nat) : Prop :=
  (fixed (-(shortest code).exponent).toNat code).digits =
    (shortest code).digits * 10 ^ (shortest code).exponent.toNat

instance (code : Nat) : Decidable (Rounded code) := inferInstanceAs (Decidable (_ = _))

theorem rounded_iff_of_places {p : Nat} (h : (shortest code).exponent = -(p : Int)) :
    Rounded code ↔ roundHalfEven (magnitude code * 10 ^ p) one = (shortest code).digits := by
  have places : (-(-(p : Int))).toNat = p := by omega
  have none : (-(p : Int)).toNat = 0 := by omega
  rw [Rounded, h, places, none, fixed_digits, Nat.pow_zero, Nat.mul_one]

theorem rounded_iff_of_whole {k : Nat} (h : (shortest code).exponent = k) :
    Rounded code ↔ roundHalfEven (magnitude code) one = (shortest code).digits * 10 ^ k := by
  have none : (-(k : Int)).toNat = 0 := by omega
  rw [Rounded, h, none, Int.toNat_natCast, fixed_digits, Nat.pow_zero, Nat.mul_one]

/-- **The two ways to write a number.** With as few places as name the double, it is spelled as the
shortest decimal exactly when that is what it is rounded to. -/
theorem positional_fixed_iff (names : Names (fixed p code) code)
    (least : ∀ q < p, ¬ Names (fixed q code) code) :
    (fixed p code).positional = (shortest code).positional ↔ Rounded code := by
  have last : Names (shortest code) code := shortest_names code
  rcases Int.lt_or_le (shortest code).exponent 0 with neg | whole
  · obtain ⟨q, hq⟩ : ∃ q : Nat, (shortest code).exponent = -(q : Int) :=
      ⟨(-(shortest code).exponent).toNat, by omega⟩
    rw [rounded_iff_of_places hq, ← fixed_digits]
    constructor
    · intro same
      rcases eq_of_positional same with ⟨-, whole, -⟩ | ⟨-, same⟩
      · omega
      · have exponent := congrArg Decimal.exponent same
        rw [fixed_exponent, hq] at exponent
        obtain rfl : p = q := by omega
        rw [same]
    · intro rounded
      have same : fixed q code = shortest code := by
        rw [eq_iff, fixed_exponent, hq]
        exact ⟨rounded, rfl⟩
      have coarsest := exponent_le_of_names (pos_of_places neg) names
      rw [hq] at coarsest
      have first : ¬ q < p := fun before => least q before (same ▸ last)
      obtain rfl : p = q := by omega
      rw [same]
  · obtain ⟨k, hk⟩ := Int.eq_ofNat_of_zero_le whole
    rw [rounded_iff_of_whole hk]
    constructor
    · intro same
      rcases eq_of_positional same with ⟨none, -, value⟩ | ⟨neg, same⟩
      · rw [fixed_exponent] at none
        obtain rfl : p = 0 := by omega
        simpa [hk] using value
      · rw [same] at neg
        omega
    · intro rounded
      have same : fixed 0 code = ⟨(shortest code).digits * 10 ^ k, 0⟩ := by
        rw [eq_iff, fixed_digits, fixed_exponent, Nat.pow_zero, Nat.mul_one]
        exact ⟨rounded, rfl⟩
      have named : Names (fixed 0 code) code := by
        rw [same, names_mul_pow, Int.zero_add, ← hk]
        exact last
      have none : p = 0 := by
        by_contra some
        exact least 0 (Nat.pos_of_ne_zero some) named
      subst none
      rw [same]
      rcases Nat.eq_zero_or_pos code with rfl | pos
      · rw [shortest_zero, Nat.zero_mul]
      · have some : 0 < (shortest code).digits :=
          @digits_pos_of_names code (shortest code).digits (shortest code).exponent pos last
        rw [positional_mul_pow some, ← hk]

/-! ## Which numbers are spelled alike -/

/-- The neighbours of a double are at the same distance, but for a power of two that is not the
least of its kind. -/
theorem magnitude_symmetric (pos : 0 < code) (h : code % binade ≠ 0 ∨ code ≤ binade) :
    magnitude (code - 1) + magnitude (code + 1) = 2 * magnitude code := by
  obtain ⟨s, m, rfl, lt, normal⟩ := exists_eq_add code
  have regular : 0 < m ∧ (s = 0 ∨ binade < m) := by
    simp only [binade] at *
    omega
  have pred := magnitude_pred regular.1 (Nat.le_of_lt lt) regular.2
  rw [magnitude_add (Nat.le_of_lt lt) normal, magnitude_succ lt normal]
  omega

/-- When the interval of a double is symmetric, its candidate is the nearest decimal of the grid. -/
theorem candidate?_eq_round {i : Interval} {e : Int} {m : Nat} (middle : i.low + i.high = 2 * i.value)
    (h : candidate? i e = some m) :
    m = roundHalfEven (i.value * (powerOfTen e).2) (2 * (powerOfTen e).1 * one) := by
  have pPos := (powerOfTen_pos e).1
  unfold candidate? at h
  generalize powerOfTen e = power at *
  obtain ⟨p, q⟩ := power
  dsimp only at *
  have stepPos : 0 < 2 * p * one := Nat.mul_pos (Nat.mul_pos (by decide) pPos) Double.one_pos
  generalize 2 * p * one = step at *
  have floor := Nat.div_mul_le_self (i.value * q) step
  have ceil := @Nat.lt_div_mul_add (i.value * q) step stepPos
  have ends : i.low * q + i.high * q = 2 * (i.value * q) := by
    rw [← Nat.add_mul, middle, Nat.mul_assoc]
  have next : (i.value * q / step + 1) * step = i.value * q / step * step + step := Nat.succ_mul _ _
  split at h
  · cases h
    rfl
  · rename_i inside outside
    cases h
    obtain ⟨low, high, strict⟩ := contains_iff.1 inside
    rw [Bool.eq_false_iff, ne_eq, contains_iff] at outside
    symm
    cases closed : i.closed <;> simp only [closed, true_implies, reduceCtorEq, false_implies,
      and_true] at strict outside
    · apply roundHalfEven_eq stepPos <;> omega
    · apply roundHalfEven_eq stepPos <;> omega
  · rename_i outside inside
    cases h
    obtain ⟨low, high, strict⟩ := contains_iff.1 inside
    rw [Bool.eq_false_iff, ne_eq, contains_iff] at outside
    symm
    cases closed : i.closed <;> simp only [closed, true_implies, reduceCtorEq, false_implies,
      and_true] at strict outside
    · apply roundHalfEven_eq stepPos <;> omega
    · apply roundHalfEven_eq stepPos <;> omega
  · cases h

/-- With some places, and a symmetric interval, the candidate is what the double is rounded to. -/
theorem candidate?_places {p m : Nat}
    (symmetric : magnitude (code - 1) + magnitude (code + 1) = 2 * magnitude code)
    (h : candidate? (interval code) (-(p : Int)) = some m) :
    m = roundHalfEven (magnitude code * 10 ^ p) one := by
  have middle : (interval code).low + (interval code).high = 2 * (interval code).value := by
    simp only [interval]
    omega
  have rounded := candidate?_eq_round middle h
  rw [powerOfTen_neg] at rounded
  simp only [interval, Nat.mul_one, Nat.mul_assoc 2] at rounded
  rwa [roundHalfEven_mul Nat.two_pos] at rounded

theorem two_pow_le_one_iff {s : Nat} : 2 ^ s ≤ one ↔ s ≤ 1074 := by
  rw [one_eq, Nat.pow_le_pow_iff_right Nat.one_lt_two]

theorem one_le_two_pow_iff {s : Nat} : one ≤ 2 ^ s ↔ 1074 ≤ s := by
  rw [one_eq, Nat.pow_le_pow_iff_right Nat.one_lt_two]

/-- The decimals that name a whole number start among the whole numbers. -/
theorem exponent_nonneg {n : Nat} (pos : 0 < code) (whole : magnitude code = n * one) :
    0 ≤ (shortest code).exponent := by
  have names : Names ⟨n, -((0 : Nat) : Int)⟩ code := by
    apply names_of_exact
    rw [isExact_iff, powerOfTen_neg]
    dsimp only
    rw [Nat.mul_one, Nat.pow_zero, Nat.mul_one, whole]
  have coarsest := exponent_le_of_names pos names
  omega

/-- The points that name a number of `m * 2 ^ s` units are at most half of `2 ^ s` units away. -/
theorem near_of_names {s m n : Nat} (lt : m < 2 * binade) (normal : s = 0 ∨ binade ≤ m)
    (names : Names ⟨n, 0⟩ (s * binade + m)) :
    2 * (n * one) ≤ 2 * (m * 2 ^ s) + 2 ^ s ∧ 2 * (m * 2 ^ s) ≤ 2 * (n * one) + 2 ^ s := by
  obtain ⟨low, high, -⟩ := contains_iff.1 names
  have power : powerOfTen 0 = (1, 1) := rfl
  have down : m * 2 ^ s ≤ magnitude (s * binade + m - 1) + 2 ^ s := by
    by_cases regular : 0 < m ∧ (s = 0 ∨ binade < m)
    · exact Nat.le_of_eq (magnitude_pred regular.1 (Nat.le_of_lt lt) regular.2).symm
    · rcases Nat.eq_zero_or_pos s with rfl | spos
      · obtain rfl : m = 0 := by omega
        omega
      · obtain ⟨t, rfl⟩ : ∃ t, s = t + 1 := ⟨s - 1, by omega⟩
        obtain rfl : m = binade := by omega
        have pred := magnitude_pred_binade t
        have some := Nat.two_pow_pos t
        omega
  simp only [interval, power, magnitude_add (Nat.le_of_lt lt) normal, magnitude_succ lt normal,
    Nat.mul_one] at low high
  rw [Nat.mul_left_comm] at low high
  omega

/-- A number below `2 ^ 53` whose shortest decimal is whole. -/
theorem rounded_of_whole (small : magnitude code < 2 ^ 53 * one)
    (whole : 0 ≤ (shortest code).exponent) : Rounded code := by
  obtain ⟨k, hk⟩ := Int.eq_ofNat_of_zero_le whole
  obtain ⟨n, hn⟩ : ∃ n, n = (shortest code).digits * 10 ^ k := ⟨_, rfl⟩
  have names : Names ⟨n, 0⟩ code := by
    rw [hn, names_mul_pow, Int.zero_add, ← hk]
    exact shortest_names code
  rw [rounded_iff_of_whole hk, ← hn]
  obtain ⟨s, m, rfl, lt, normal⟩ := exists_eq_add code
  obtain ⟨low, high⟩ := near_of_names lt normal names
  rw [magnitude_add (Nat.le_of_lt lt) normal] at small ⊢
  rcases Nat.lt_or_ge s 1074 with fine | coarse
  · have unit : 2 * 2 ^ s ≤ one := by
      rw [← Nat.pow_succ', two_pow_le_one_iff]
      exact fine
    have some := Nat.two_pow_pos s
    apply roundHalfEven_eq Double.one_pos <;> omega
  · -- Then the number is whole.
    have last : s = 1074 := by
      by_contra beyond
      have unit : 2 * one ≤ 2 ^ s := by
        obtain ⟨t, rfl⟩ : ∃ t, s = t + 1 := ⟨s - 1, by omega⟩
        rw [Nat.pow_succ']
        exact Nat.mul_le_mul_left 2 (one_le_two_pow_iff.2 (by omega))
      have more := Nat.mul_le_mul_left binade unit
      have top := Nat.mul_le_mul_right (2 ^ s) (normal.resolve_left (by omega))
      have scale : (2 : Nat) ^ 53 = 2 * binade := by decide
      rw [scale] at small
      have : binade * (2 * one) = 2 * binade * one := by ring
      omega
    rw [last, ← one_eq] at low high ⊢
    have same : n = m := by
      have pos := Double.one_pos
      rcases Nat.lt_trichotomy n m with less | eq | more
      · have := Nat.mul_le_mul_right one (Nat.succ_le_of_lt less)
        rw [Nat.succ_mul] at this
        omega
      · exact eq
      · have := Nat.mul_le_mul_right one (Nat.succ_le_of_lt more)
        rw [Nat.succ_mul] at this
        omega
    rw [same, roundHalfEven_whole _ Double.one_pos]

theorem eq_one_of_le_ten {d i : Nat} (pos : 0 < d) (le : d * 10 ^ (i + 1) ≤ 10) : d = 1 ∧ i = 0 := by
  have power : 0 < 10 ^ i := Nat.pow_pos (by decide)
  rw [Nat.pow_succ, ← Nat.mul_assoc] at le
  have one_digit : d * 10 ^ i = 1 := by
    have := Nat.mul_pos pos power
    omega
  obtain ⟨rfl, last⟩ := mul_eq_one.1 one_digit
  refine ⟨rfl, ?_⟩
  by_contra more
  have := Nat.pow_le_pow_right (show 0 < 10 by decide) (Nat.pos_of_ne_zero more)
  omega

/-- A number with places whose interval is symmetric. -/
theorem rounded_of_symmetric (pos : 0 < code)
    (symmetric : magnitude (code - 1) + magnitude (code + 1) = 2 * magnitude code)
    (neg : (shortest code).exponent < 0) : Rounded code := by
  obtain ⟨k, m, found, missed, eq⟩ := shortest_found pos
  obtain ⟨j, digits, exponent, -⟩ := trim_spec m (leading (magnitude code) - (k : Nat))
  rw [← eq] at digits exponent
  rcases Nat.eq_zero_or_pos j with rfl | later
  · -- The digits are the candidate.
    rw [Nat.pow_zero, Nat.mul_one] at digits
    rw [Int.natCast_zero, Int.add_zero] at exponent
    obtain ⟨p, hp⟩ : ∃ p : Nat, leading (magnitude code) - (k : Nat) = -(p : Int) :=
      ⟨(-(leading (magnitude code) - (k : Nat))).toNat, by omega⟩
    rw [hp] at found
    rw [rounded_iff_of_places (exponent.trans hp), ← candidate?_places symmetric found, digits]
  · -- The candidate ends with a zero, so it is ten times the leading power of ten.
    have named : Names ⟨(shortest code).digits, leading (magnitude code) - (k : Nat) + (j : Nat)⟩
        code := exponent ▸ shortest_names code
    obtain rfl := eq_zero_of_coarser pos later missed named
    have some := digits_pos_of_names pos named
    rw [Int.natCast_zero, Int.sub_zero] at exponent found
    have lead := lt_powerOfTen_leading (magnitude code)
    obtain ⟨p, hp⟩ : ∃ p : Nat, leading (magnitude code) = -((p + 1 : Nat) : Int) :=
      ⟨(-leading (magnitude code) - 1).toNat, by omega⟩
    rw [hp] at found
    rw [hp, powerOfTen_neg, Nat.pow_succ', Nat.mul_left_comm, Nat.one_mul] at lead
    have rounded := candidate?_places symmetric found
    rw [Nat.pow_succ', Nat.mul_left_comm] at rounded
    obtain ⟨low, high, -⟩ := roundHalfEven_bounds Double.one_pos rounded.symm
    have ten : m ≤ 10 := by
      by_contra more
      have := Nat.mul_le_mul_right one (Nat.succ_le_of_lt (Nat.not_le.1 more))
      omega
    obtain ⟨i, rfl⟩ : ∃ i, j = i + 1 := ⟨j - 1, by omega⟩
    obtain ⟨one_digit, rfl⟩ := eq_one_of_le_ten some (digits ▸ ten)
    have last : (shortest code).exponent = -(p : Int) := by omega
    rw [one_digit, Nat.one_mul, Nat.zero_add, Nat.pow_one] at digits
    subst digits
    rw [rounded_iff_of_places last, one_digit]
    apply roundHalfEven_eq Double.one_pos <;> omega

/-- Below `2 ^ 53` only powers of two less than one may be spelled with different digits. -/
theorem rounded_of_magnitude_lt (small : magnitude code < 2 ^ 53 * one)
    (h : code % binade ≠ 0 ∨ code ≤ binade ∨ one ≤ magnitude code) : Rounded code := by
  rcases Int.lt_or_le (shortest code).exponent 0 with neg | whole
  · have pos := pos_of_places neg
    by_cases regular : code % binade ≠ 0 ∨ code ≤ binade
    · exact rounded_of_symmetric pos (magnitude_symmetric pos regular) neg
    · have large : one ≤ magnitude code := by omega
      obtain ⟨s, m, rfl, lt, normal⟩ := exists_eq_add code
      obtain rfl : m = binade := by
        simp only [binade] at *
        omega
      have power : magnitude (s * binade + binade) = 2 ^ (52 + s) := by
        rw [magnitude_add (Nat.le_of_lt lt) normal, Nat.pow_add]
        rfl
      rw [power, one_le_two_pow_iff] at large
      have whole : magnitude (s * binade + binade) = 2 ^ (52 + s - 1074) * one := by
        rw [power, one_eq, ← Nat.pow_add, Nat.sub_add_cancel large]
      have := exponent_nonneg pos whole
      omega
  · exact rounded_of_whole small whole

/-- From `2 ^ 53` on the digits are the same only if they are exact. -/
theorem rounded_iff_isExact (large : 2 ^ 53 * one ≤ magnitude code) :
    Rounded code ↔ isExact (shortest code) code = true := by
  have pos : 0 < code := by
    rcases Nat.eq_zero_or_pos code with rfl | pos
    · have := Nat.mul_pos (Nat.two_pow_pos 53) Double.one_pos
      have zero : magnitude 0 = 0 := by simp [magnitude]
      omega
    · exact pos
  obtain ⟨n, whole⟩ : ∃ n, magnitude code = n * one := by
    obtain ⟨s, m, rfl, lt, normal⟩ := exists_eq_add code
    rw [magnitude_add (Nat.le_of_lt lt) normal] at large ⊢
    have le : 1074 ≤ s := by
      by_contra less
      have unit : 2 ^ s ≤ one := two_pow_le_one_iff.2 (by omega)
      have short := Nat.mul_lt_mul_of_pos_right lt (Nat.two_pow_pos s)
      have less := Nat.mul_le_mul_left (2 * binade) unit
      have scale : (2 : Nat) ^ 53 = 2 * binade := by decide
      rw [scale] at large
      omega
    refine ⟨m * 2 ^ (s - 1074), ?_⟩
    rw [one_eq, Nat.mul_assoc, ← Nat.pow_add, Nat.sub_add_cancel le]
  obtain ⟨k, hk⟩ := Int.eq_ofNat_of_zero_le (exponent_nonneg pos whole)
  have none : (-(k : Int)).toNat = 0 := by omega
  have power : powerOfTen (k : Int) = (10 ^ k, 1) := by
    rw [powerOfTen, none, Int.toNat_natCast]
    rfl
  rw [rounded_iff_of_whole hk, isExact_iff, hk, power, whole, roundHalfEven_whole _ Double.one_pos]
  dsimp only
  rw [Nat.mul_one, Nat.mul_right_cancel_iff Double.one_pos, eq_comm]

end Decimal

end LetWhile
