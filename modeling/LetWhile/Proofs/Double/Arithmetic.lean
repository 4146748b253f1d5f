import LetWhile.Proofs.Double

/-!
# Arithmetic of doubles

What the operations on doubles do, in terms of codes and magnitudes. Doubles of one sign are equal
when their codes are (`Double.beq_ofCode`), positive ones are in the order of their codes
(`Double.lt_ofCode`), and a sum that is a double is exact (`Double.add_ofCode`).

An operation unpacks its operands and packs its result. All is read off `Double.unpack_ofCode`, what
a code unpacks to; that packing undoes it is known for all doubles.
-/

namespace LetWhile

namespace Double

open Float.Model (Format UnpackedFloat totalExponent)
open Float.Model.UnpackedFloat hiding infinity

/-! ## Bits and codes -/

theorem toNat_unpackMantissa (b : BitVec Format.binary64.numBits) :
    (unpackMantissa b).toNat = b.toNat % binade := by
  simp [unpackMantissa, BitVec.extractLsb_toNat, binade]

theorem toNat_unpackSign (b : BitVec Format.binary64.numBits) :
    (unpackSign b).toNat = b.toNat / signBit % 2 := by
  simp [unpackSign, BitVec.extractLsb_toNat, signBit, Nat.shiftRight_eq_div_pow]

/-- The bits of the double with a sign and a code. -/
def bits (sign : Bool) (code : Nat) : Nat := if sign then signBit + code else code

variable {sign : Bool} {c d : Nat}

theorem bits_lt (le : c ≤ infinity) : bits sign c < 2 ^ 64 := by
  simp only [bits, signBit, infinity, binade] at *
  split <;> omega

theorem toNat_toBits_ofCode (sign : Bool) (le : c ≤ infinity) :
    (ofCode sign c).toBits.toNat = bits sign c := by
  have toNat : (UInt64.ofNat (bits sign c)).toBitVec.toNat = bits sign c := by
    simpa using bits_lt le
  have number : @isNaNBits .binary64 (UInt64.ofNat (bits sign c)).toBitVec =
      false := by
    rw [isNaNBits, decide_eq_false_iff_not]
    rintro ⟨ones, fraction⟩
    have exponent := congrArg BitVec.toNat ones
    rw [toNat_unpackExponent, toNat] at exponent
    apply fraction
    apply BitVec.eq_of_toNat_eq
    rw [toNat_unpackMantissa, toNat]
    change _ = 2047 at exponent
    show _ = 0
    cases sign <;> simp [bits, signBit, infinity, binade] at * <;> omega
  have packed := @pack_unpack .binary64 (UInt64.ofNat (bits sign c)).toBitVec
  rw [number] at packed
  exact (congrArg BitVec.toNat packed).trans toNat

theorem code_ofCode (sign : Bool) (le : c ≤ infinity) : code (ofCode sign c) = c := by
  rw [code, toNat_toBits_ofCode sign le]
  simp only [bits, signBit, infinity, binade] at *
  split <;> omega

theorem negative_ofCode (sign : Bool) (le : c ≤ infinity) : negative (ofCode sign c) = sign := by
  rw [negative, toNat_toBits_ofCode sign le]
  cases sign <;> simp [bits, signBit, infinity, binade] at *
  omega

theorem eq_ofCode (x : Float) : x = ofCode (negative x) (code x) := by
  have whole : bits (negative x) (code x) = x.toBits.toNat := by
    have small := x.toBits.toNat_lt
    simp only [bits, negative, code, decide_eq_true_eq]
    split <;> simp only [signBit] at * <;> omega
  change x = Float.ofBits (UInt64.ofNat (bits (negative x) (code x)))
  rw [whole, UInt64.ofNat_toNat, Float.ofBits_toBits]

theorem code_nan : code Float.nan = nan := by decide

theorem ofCode_ne_nan (sign : Bool) (le : c ≤ infinity) : ofCode sign c ≠ Float.nan := by
  intro eq
  have same := congrArg code eq
  rw [code_ofCode sign le, code_nan] at same
  simp only [nan, infinity, binade] at *
  omega

theorem code_eq_of_beq {x y : Float} (h : (x == y) = true) : code x = code y := by
  have zero : code (0 : Float) = 0 := by decide
  have minus : code (-0 : Float) = 0 := by decide
  rw [Float.beq_iff_ne_nan_and_eq] at h
  obtain ⟨-, -, rfl | ⟨rfl, rfl⟩ | ⟨rfl, rfl⟩⟩ := h
  · rfl
  · rw [zero, minus]
  · rw [zero, minus]

/-- Numbers of one sign are equal when their codes are. -/
theorem beq_ofCode (hc : c ≤ infinity) (hd : d ≤ infinity) :
    (ofCode sign c == ofCode sign d) = true ↔ c = d := by
  constructor
  · intro same
    rw [← code_ofCode sign hc, code_eq_of_beq same, code_ofCode sign hd]
  · rintro rfl
    rw [Float.beq_self_iff]
    exact ofCode_ne_nan sign hc

/-- What has a code beyond infinity is no number. -/
theorem eq_nan_of_lt {x : Float} (h : infinity < code x) : x = Float.nan := by
  obtain ⟨⟨word, valid⟩⟩ := x
  have beyond : infinity < word.toNat % signBit := h
  have toNat : word.toBitVec.toNat = word.toNat := rfl
  have ones : @unpackExponent .binary64 word.toBitVec = -1#_ := by
    apply BitVec.eq_of_toNat_eq
    rw [toNat_unpackExponent, toNat]
    show _ = 2047
    simp only [infinity, signBit, binade] at beyond
    omega
  have fraction : @unpackMantissa .binary64 word.toBitVec ≠ 0#_ := by
    intro none
    have zero := congrArg BitVec.toNat none
    rw [toNat_unpackMantissa, toNat] at zero
    change _ = 0 at zero
    simp only [infinity, signBit, binade] at *
    omega
  rw [← Float.toBits_inj, ← UInt64.toBitVec_inj]
  exact valid.eq_packedNaN ones fraction

/-! ## Unpacking -/

/-- A sign as the operations have it. -/
def signOf (sign : Bool) : Sign := if sign then .negative else .positive

theorem unpack_zero (sign : Bool) : (ofCode sign 0).toModel.unpack = .zero (signOf sign) := by
  cases sign <;> rfl

/-- The code `s * binade + m` unpacks to `m` and the exponent of `m * 2 ^ s` units. -/
theorem unpack_ofCode (sign : Bool) {s m : Nat} (pos : 0 < m) (lt : m < 2 * binade)
    (normal : s = 0 ∨ binade ≤ m) (finite : s * binade + m < infinity) :
    (ofCode sign (s * binade + m)).toModel.unpack =
      .finite (signOf sign) m ((s : Int) - 1074) pos := by
  have word := toNat_toBits_ofCode sign (Nat.le_of_lt finite)
  generalize ofCode sign (s * binade + m) = x at word
  obtain ⟨⟨packed, valid⟩⟩ := x
  change packed.toBitVec.toNat = _ at word
  show UnpackedFloat.unpack .binary64 packed.toBitVec = _
  have exponent : (@unpackExponent .binary64 packed.toBitVec).toNat =
      (s * binade + m) / binade := by
    rw [toNat_unpackExponent, word]
    simp only [bits, infinity, signBit, binade] at *
    split <;> omega
  have fraction : (@unpackMantissa .binary64 packed.toBitVec).toNat =
      m % binade := by
    rw [toNat_unpackMantissa, word]
    simp only [bits, infinity, signBit, binade] at *
    split <;> omega
  have signs : Sign.ofBitVec (@unpackSign .binary64 packed.toBitVec) =
      signOf sign := by
    have signBits : @unpackSign .binary64 packed.toBitVec =
        if sign then 1#1 else 0#1 := by
      apply BitVec.eq_of_toNat_eq
      rw [toNat_unpackSign, word]
      cases sign <;> simp [bits, infinity, signBit, binade] at * <;> omega
    rw [signBits]
    cases sign <;> rfl
  have notOnes : @unpackExponent .binary64 packed.toBitVec ≠ -1#_ := by
    intro ones
    have eq := exponent.symm.trans (congrArg BitVec.toNat ones)
    change _ = 2047 at eq
    simp only [infinity, binade] at *
    omega
  rw [UnpackedFloat.unpack, if_neg notOnes]
  by_cases small : m < binade
  · obtain rfl : s = 0 := by omega
    have zero : @unpackExponent .binary64 packed.toBitVec = 0#_ := by
      apply BitVec.eq_of_toNat_eq
      rw [exponent]
      show _ = 0
      simp only [binade] at *
      omega
    have some : @unpackMantissa .binary64 packed.toBitVec ≠ 0#_ := by
      intro none
      have eq := fraction.symm.trans (congrArg BitVec.toNat none)
      change _ = 0 at eq
      rw [Nat.mod_eq_of_lt small] at eq
      omega
    rw [if_pos zero, dif_neg some]
    congr 1
    · rw [fraction, Nat.mod_eq_of_lt small]
    · rw [exponent]
      show (((0 * binade + m) / binade : Nat) : Int) - (1023 + 52) + 1 = (0 : Nat) - 1074
      simp only [binade] at *
      omega
  · have nonzero : @unpackExponent .binary64 packed.toBitVec ≠ 0#_ := by
      intro zero
      have eq := exponent.symm.trans (congrArg BitVec.toNat zero)
      change _ = 0 at eq
      simp only [binade] at *
      omega
    rw [if_neg nonzero]
    congr 1
    · have below : m % binade < 2 ^ 52 := Nat.mod_lt m (by decide)
      rw [BitVec.toNat_append, fraction]
      show 2 ^ 52 * 1 ||| m % binade = m
      rw [← Nat.two_pow_add_eq_or_of_lt below]
      simp only [binade] at *
      omega
    · rw [exponent]
      show (((s * binade + m) / binade : Nat) : Int) - (1023 + 52) = (s : Int) - 1074
      simp only [binade] at *
      omega

theorem pack_unpack_toModel (x : Float) : Float.Model.pack x.toModel.unpack = x.toModel :=
  congrArg Float.toModel (Float.ofBits_toBits x)

/-- A code that is not zero, in the parts that it unpacks to. -/
theorem exists_unpacked (sign : Bool) (pos : 0 < c) (finite : c < infinity) :
    ∃ s m, ∃ h : 0 < m, c = s * binade + m ∧ m < 2 * binade ∧ (s = 0 ∨ binade ≤ m) ∧
      (ofCode sign c).toModel.unpack = .finite (signOf sign) m ((s : Int) - 1074) h := by
  obtain ⟨s, m, rfl, lt, normal⟩ := exists_eq_add c
  have positive : 0 < m := by
    simp only [binade] at *
    omega
  exact ⟨s, m, positive, rfl, lt, normal, unpack_ofCode sign positive lt normal finite⟩

theorem isFinite_iff {x : Float} : x.isFinite = true ↔ code x < infinity := by
  constructor
  · exact code_lt_infinity
  · intro finite
    rw [eq_ofCode x]
    show (ofCode (negative x) (code x)).toModel.unpack.isFinite = true
    rcases Nat.eq_zero_or_pos (code x) with zero | pos
    · rw [zero, unpack_zero]
      rfl
    · obtain ⟨s, m, h, -, -, -, unpacked⟩ := exists_unpacked (negative x) pos finite
      rw [unpacked]
      rfl

/-- What is not finite is an infinity or no number. -/
theorem cases_of_not_isFinite {x : Float} (h : x.isFinite = false) :
    x = ofCode false infinity ∨ x = ofCode true infinity ∨ x = Float.nan := by
  have beyond : infinity ≤ code x := by
    rw [← Bool.not_eq_true, isFinite_iff] at h
    exact Nat.not_lt.1 h
  rcases Nat.eq_or_lt_of_le beyond with eq | lt
  · have same := eq_ofCode x
    rw [← eq] at same
    cases sign : negative x with
    | false =>
      rw [sign] at same
      exact .inl same
    | true =>
      rw [sign] at same
      exact .inr (.inl same)
  · exact .inr (.inr (eq_nan_of_lt lt))

/-! ## Order -/

theorem lt_iff_compare (x y : Float) :
    x < y ↔ x.toModel.unpack.compare y.toModel.unpack = some .lt := by
  show decide ((x.toModel.unpack.compare y.toModel.unpack == some .lt) = true) = true ↔ _
  rw [decide_eq_true_eq, beq_iff_eq]

/-- Numbers with a clear sign are in the order of their codes. -/
theorem lt_ofCode (hc : c < infinity) (hd : d < infinity) :
    ofCode false c < ofCode false d ↔ c < d := by
  rw [lt_iff_compare]
  rcases Nat.eq_zero_or_pos c with rfl | cpos
  · rw [unpack_zero]
    rcases Nat.eq_zero_or_pos d with rfl | dpos
    · simp [unpack_zero, UnpackedFloat.compare]
    · obtain ⟨s, m, h, -, -, -, unpacked⟩ := exists_unpacked false dpos hd
      rw [unpacked]
      simp [UnpackedFloat.compare, signOf, dpos]
  · obtain ⟨s, m, h, rfl, lt, normal, unpacked⟩ := exists_unpacked false cpos hc
    rw [unpacked]
    rcases Nat.eq_zero_or_pos d with rfl | dpos
    · simp [unpack_zero, UnpackedFloat.compare, signOf]
    · obtain ⟨s', m', h', rfl, lt', normal', unpacked'⟩ := exists_unpacked false dpos hd
      rw [unpacked']
      simp only [UnpackedFloat.compare, signOf, Bool.false_eq_true, if_false, Option.some.injEq,
        Ordering.then_eq_lt, compare_lt_iff_lt, compare_eq_iff_eq, binade] at *
      omega

/-- No number with a clear sign is below one with a sign. -/
theorem not_lt_negative (hc : c < infinity) (hd : d < infinity) :
    ¬ ofCode false c < ofCode true d := by
  rw [lt_iff_compare]
  rcases Nat.eq_zero_or_pos c with rfl | cpos
  · rw [unpack_zero]
    rcases Nat.eq_zero_or_pos d with rfl | dpos
    · simp [unpack_zero, UnpackedFloat.compare]
    · obtain ⟨s, m, h, -, -, -, unpacked⟩ := exists_unpacked true dpos hd
      rw [unpacked]
      simp [UnpackedFloat.compare, signOf]
  · obtain ⟨s, m, h, -, -, -, unpacked⟩ := exists_unpacked false cpos hc
    rw [unpacked]
    rcases Nat.eq_zero_or_pos d with rfl | dpos
    · simp [unpack_zero, UnpackedFloat.compare, signOf]
    · obtain ⟨s', m', h', -, -, -, unpacked'⟩ := exists_unpacked true dpos hd
      rw [unpacked']
      simp [UnpackedFloat.compare, signOf]

/-! ## Sums -/

/-- Shifting out zeros loses nothing. -/
theorem shiftRight_exact (m k : Nat) :
    (ExtendedMantissa.mk (m * 2 ^ k) false false) >>> k = ExtendedMantissa.mk m false false := by
  show Nat.repeat ExtendedMantissa.shiftRightOne k _ = _
  induction k generalizing m with
  | zero => simp [Nat.repeat]
  | succ k ih =>
    rw [Nat.repeat, Nat.pow_succ', ← Nat.mul_assoc, ih]
    simp [ExtendedMantissa.shiftRightOne]

theorem targetExponent_eq {s m : Nat} (pos : 0 < m) (lt : m < 2 * binade)
    (normal : s = 0 ∨ binade ≤ m) {t : Int} (total : t = m.log2 + s + 1 - 1074) :
    Format.binary64.targetExponent t = (s : Int) - 1074 := by
  show max (t - 53) (-1074) = (s : Int) - 1074
  have high : m.log2 < 53 := (Nat.log2_lt (Nat.ne_of_gt pos)).2 lt
  rcases normal with rfl | ge
  · omega
  · have low : 52 ≤ m.log2 := (Nat.le_log2 (Nat.ne_of_gt pos)).2 ge
    omega

theorem log2_mul_two_pow {m : Nat} (pos : 0 < m) (k : Nat) : (m * 2 ^ k).log2 = m.log2 + k := by
  rw [Nat.log2_eq_iff (Nat.ne_of_gt (Nat.mul_pos pos (Nat.two_pow_pos k)))]
  constructor
  · rw [Nat.pow_add]
    exact Nat.mul_le_mul_right _ (Nat.log2_self_le (Nat.ne_of_gt pos))
  · rw [Nat.add_right_comm, Nat.pow_add]
    exact Nat.mul_lt_mul_of_pos_right Nat.lt_log2_self (Nat.two_pow_pos k)

theorem shiftToTarget_exact {s m k : Nat} (pos : 0 < m) (lt : m < 2 * binade)
    (normal : s = 0 ∨ binade ≤ m) {e : Int} (shifted : e + k = (s : Int) - 1074) :
    shiftToTargetExponent .binary64 (m * 2 ^ k) e .exact =
      (ExtendedMantissa.mk m false false, (s : Int) - 1074) := by
  have target : Format.binary64.targetExponent (totalExponent (m * 2 ^ k) e) = (s : Int) - 1074 := by
    apply targetExponent_eq pos lt normal
    rw [totalExponent, log2_mul_two_pow pos]
    omega
  have amount : ((s : Int) - 1074 - e).toNat = k := by omega
  rw [shiftToTargetExponent, target, shiftToExponent, amount, shifted]
  exact Prod.ext (shiftRight_exact m k) rfl

/-- A number that is a double is rounded to it, whatever it is written with. -/
theorem round_exact (sign : Sign) {n t s m : Nat} (pos : 0 < m) (lt : m < 2 * binade)
    (normal : s = 0 ∨ binade ≤ m) (same : n * 2 ^ t = m * 2 ^ s) :
    round .binary64 sign n ((t : Int) - 1074) = .finite sign m ((s : Int) - 1074) pos := by
  have npos : 0 < n := by
    have := Nat.mul_pos pos (Nat.two_pow_pos s)
    rw [← same] at this
    exact Nat.pos_of_mul_pos_right this
  have logs : n.log2 + t = m.log2 + s := by
    rw [← log2_mul_two_pow npos, same, log2_mul_two_pow pos]
  have target : Format.binary64.targetExponent (totalExponent n ((t : Int) - 1074)) =
      (s : Int) - 1074 := by
    apply targetExponent_eq pos lt normal
    rw [totalExponent]
    omega
  -- What is too fine for the exponent of the result are zeros.
  obtain ⟨k, e, shifted, decreased⟩ : ∃ (k : Nat) (e : Int), e + k = (s : Int) - 1074 ∧
      decreaseExponent n ((t : Int) - 1074) ((s : Int) - 1074) = (m * 2 ^ k, e) := by
    refine ⟨s - t, (t : Int) - 1074 - ((t - s : Nat) : Int), by omega, ?_⟩
    have amount : ((t : Int) - 1074 - ((s : Int) - 1074)).toNat = t - s := by omega
    rw [decreaseExponent, amount, Nat.shiftLeft_eq]
    refine Prod.ext ?_ rfl
    rcases Nat.le_total s t with le | le
    · obtain ⟨j, rfl⟩ := Nat.exists_eq_add_of_le le
      rw [Nat.add_sub_cancel_left, Nat.sub_eq_zero_of_le le, Nat.pow_zero, Nat.mul_one]
      apply Nat.eq_of_mul_eq_mul_right (Nat.two_pow_pos s)
      rw [← same, Nat.pow_add, Nat.mul_assoc, Nat.mul_comm (2 ^ j)]
    · obtain ⟨j, rfl⟩ := Nat.exists_eq_add_of_le le
      rw [Nat.add_sub_cancel_left, Nat.sub_eq_zero_of_le le, Nat.pow_zero, Nat.mul_one]
      apply Nat.eq_of_mul_eq_mul_right (Nat.two_pow_pos t)
      rw [same, Nat.pow_add, Nat.mul_assoc, Nat.mul_comm (2 ^ j)]
  have settled := shiftToTarget_exact (k := 0) (e := (s : Int) - 1074) pos lt normal (by omega)
  rw [Nat.pow_zero, Nat.mul_one] at settled
  rw [UnpackedFloat.round, target, decreased]
  dsimp only
  rw [roundWithAccuracy, shiftToTarget_exact pos lt normal shifted]
  dsimp only [ExtendedMantissa.roundedMantissa, ExtendedMantissa.accuracy,
    Accuracy.roundToNearestEven]
  rw [settled]
  exact dif_neg (Nat.ne_of_gt pos)

theorem add_eq_of_unpack {x y z : Float}
    (h : UnpackedFloat.add .binary64 x.toModel.unpack y.toModel.unpack = z.toModel.unpack) :
    x + y = z := by
  have packed := congrArg Float.Model.pack h
  rw [pack_unpack_toModel] at packed
  exact congrArg Float.ofModel packed

/-- The sum of two numbers with a clear sign is exact when it is a double. -/
theorem add_ofCode {e : Nat} (hc : c < infinity) (hd : d < infinity) (he : e < infinity)
    (sum : magnitude c + magnitude d = magnitude e) :
    ofCode false c + ofCode false d = ofCode false e := by
  apply add_eq_of_unpack
  rcases Nat.eq_zero_or_pos c with rfl | cpos
  · have same : d = e := magnitude_strictMono.injective (by simpa [magnitude] using sum)
    subst same
    rcases Nat.eq_zero_or_pos d with rfl | dpos
    · rw [unpack_zero]
      rfl
    · obtain ⟨s, m, h, -, -, -, unpacked⟩ := exists_unpacked false dpos hd
      rw [unpacked, unpack_zero]
      rfl
  rcases Nat.eq_zero_or_pos d with rfl | dpos
  · have same : c = e := magnitude_strictMono.injective (by simpa [magnitude] using sum)
    subst same
    obtain ⟨s, m, h, -, -, -, unpacked⟩ := exists_unpacked false cpos hc
    rw [unpacked, unpack_zero]
    rfl
  have epos : 0 < e := Nat.lt_trans cpos (magnitude_strictMono.lt_iff_lt.1 (by
    have := magnitude_strictMono dpos
    omega))
  obtain ⟨s₁, m₁, h₁, rfl, lt₁, normal₁, unpacked₁⟩ := exists_unpacked false cpos hc
  obtain ⟨s₂, m₂, h₂, rfl, lt₂, normal₂, unpacked₂⟩ := exists_unpacked false dpos hd
  obtain ⟨s, m, h, rfl, lt, normal, unpacked⟩ := exists_unpacked false epos he
  rw [magnitude_add (Nat.le_of_lt lt₁) normal₁, magnitude_add (Nat.le_of_lt lt₂) normal₂,
    magnitude_add (Nat.le_of_lt lt) normal] at sum
  rw [unpacked₁, unpacked₂, unpacked]
  -- The operands at the smaller of their exponents.
  obtain ⟨t, ht⟩ : ∃ t, t = min s₁ s₂ := ⟨_, rfl⟩
  have low : min ((s₁ : Int) - 1074) ((s₂ : Int) - 1074) = (t : Int) - 1074 := by omega
  have shift₁ : ((s₁ : Int) - 1074 - ((t : Int) - 1074)).toNat = s₁ - t := by omega
  have shift₂ : ((s₂ : Int) - 1074 - ((t : Int) - 1074)).toNat = s₂ - t := by omega
  have whole : (m₁ * 2 ^ (s₁ - t) + m₂ * 2 ^ (s₂ - t)) * 2 ^ t = m * 2 ^ s := by
    rw [← sum, Nat.add_mul, Nat.mul_assoc, Nat.mul_assoc, ← Nat.pow_add, ← Nat.pow_add,
      Nat.sub_add_cancel (ht ▸ Nat.min_le_left ..), Nat.sub_add_cancel (ht ▸ Nat.min_le_right ..)]
  have rounded := round_exact .positive h lt normal whole
  obtain ⟨n, hn⟩ : ∃ n, n = m₁ * 2 ^ (s₁ - t) + m₂ * 2 ^ (s₂ - t) := ⟨_, rfl⟩
  have npos : 0 < n := hn ▸ Nat.add_pos_left (Nat.mul_pos h₁ (Nat.two_pow_pos _)) _
  rw [← hn] at rounded
  simp only [UnpackedFloat.add, signOf, Bool.false_eq_true, if_false, low, decreaseExponent, shift₁,
    shift₂, Nat.shiftLeft_eq, Sign.apply]
  rw [← Int.natCast_add, ← hn, UnpackedFloat.normalize,
    compare_gt_iff_gt.2 (Int.natCast_pos.2 npos)]
  exact rounded

/-- Zero less a number changes its sign. -/
theorem zero_sub_ofCode (pos : 0 < c) (hc : c < infinity) :
    ofCode false 0 - ofCode false c = ofCode true c := by
  obtain ⟨s, m, h, rfl, lt, normal, unpacked⟩ := exists_unpacked false pos hc
  have negated : UnpackedFloat.sub .binary64 (ofCode false 0).toModel.unpack
      (ofCode false (s * binade + m)).toModel.unpack =
      (ofCode true (s * binade + m)).toModel.unpack := by
    rw [unpacked, unpack_zero, unpack_ofCode true h lt normal hc]
    rfl
  have packed := congrArg Float.Model.pack negated
  rw [pack_unpack_toModel] at packed
  exact congrArg Float.ofModel packed

/-! ## Whole numbers -/

/-- The code of the double nearest to a whole number. -/
def whole (n : Nat) : Nat := nearest (n * one) 1

/-- Whole numbers up to `2 ^ 53` are doubles. -/
theorem magnitude_whole {n : Nat} (le : n ≤ 2 ^ 53) : magnitude (whole n) = n * one := by
  have exact {c : Nat} (same : magnitude c = n * one) : magnitude (whole n) = n * one := by
    rw [whole, ← same, nearest_magnitude]
  rcases Nat.eq_zero_or_pos n with rfl | pos
  · exact exact (c := 0) (by simp [magnitude])
  · obtain ⟨l, hl⟩ : ∃ l, l = min n.log2 52 := ⟨_, rfl⟩
    have low : 2 ^ l ≤ n :=
      Nat.le_trans (Nat.pow_le_pow_right Nat.two_pos (by omega)) (Nat.log2_self_le (Nat.ne_of_gt pos))
    have high : n ≤ 2 ^ (l + 1) := by
      rcases Nat.le_total n.log2 52 with small | large
      · rw [hl, Nat.min_eq_left small]
        exact Nat.le_of_lt Nat.lt_log2_self
      · rw [hl, Nat.min_eq_right large]
        exact le
    have unit : 2 ^ (52 - l) * 2 ^ l = binade := by
      rw [← Nat.pow_add, Nat.sub_add_cancel (by omega)]
      rfl
    have pos := Nat.two_pow_pos (52 - l)
    apply exact (c := (1022 + l) * binade + n * 2 ^ (52 - l))
    rw [magnitude_add, Nat.mul_assoc, ← Nat.pow_add, one_eq]
    · congr 2
      omega
    · rw [← unit, Nat.mul_left_comm, ← Nat.pow_succ', Nat.mul_comm n]
      exact Nat.mul_le_mul_left _ high
    · right
      rw [← unit, Nat.mul_comm n]
      exact Nat.mul_le_mul_left _ low

theorem whole_pos {n : Nat} (pos : 0 < n) : 0 < whole n := by
  obtain ⟨-, high, -⟩ := @between_of_nearest (whole n) (n * one) 1 Nat.one_pos rfl
  by_contra zero
  obtain none : whole n = 0 := Nat.eq_zero_of_not_pos zero
  have least : magnitude 0 + magnitude (0 + 1) = 1 := by decide
  have some := Nat.mul_pos pos Double.one_pos
  rw [none, least] at high
  omega

theorem whole_lt_infinity {n : Nat} (le : n ≤ 2 ^ 64) : whole n < infinity := by
  obtain ⟨low, -, -⟩ := @between_of_nearest (whole n) (n * one) 1 Nat.one_pos rfl
  by_contra beyond
  have above : magnitude infinity ≤ magnitude (whole n) :=
    magnitude_strictMono.monotone (Nat.not_lt.1 beyond)
  have before : magnitude (infinity - 1) ≤ magnitude (whole n - 1) :=
    magnitude_strictMono.monotone (Nat.sub_le_sub_right (Nat.not_lt.1 beyond) 1)
  have some : 0 < magnitude (infinity - 1) :=
    Nat.zero_lt_of_lt (magnitude_strictMono (show 0 < infinity - 1 by decide))
  have wide : 2 ^ 65 ≤ 2 ^ 1024 := by decide +kernel
  have small : 2 * n ≤ 2 ^ 1024 := Nat.le_trans (Nat.mul_le_mul_left 2 le) wide
  have most : 2 * (n * one) ≤ magnitude infinity := by
    rw [magnitude_infinity, ← Nat.mul_assoc]
    exact Nat.mul_le_mul_right one small
  omega

end Double

end LetWhile
