import LetWhile.Text.Digit
import LetWhile.Decimal.Read
import LetWhile.Value
import LetWhile.Proofs.Double

/-!
# Printed numbers

A number is printed with the fewest digits that name it, and what names a double is read as that
double. Main results: `Decimal.shortest_names`, for which seventeen digits have to be enough;
`Decimal.positional_spelled`, how the digits are laid out; and `Value.read?_text`.
-/

namespace LetWhile

namespace Decimal

open Double

/-- The decimal is at least as near to the double with this code as to any other. -/
def Names (d : Decimal) (code : Nat) : Prop :=
  (interval code).contains (powerOfTen d.exponent).2
    (d.digits * (2 * (powerOfTen d.exponent).1 * one)) = true

theorem powerOfTen_pos (e : Int) : 0 < (powerOfTen e).1 ∧ 0 < (powerOfTen e).2 :=
  ⟨Nat.pow_pos (by decide), Nat.pow_pos (by decide)⟩

theorem contains_iff {i : Interval} {scale point : Nat} :
    i.contains scale point = true ↔ i.low * scale ≤ point ∧ point ≤ i.high * scale ∧
      (i.closed = false → i.low * scale < point ∧ point < i.high * scale) := by
  unfold Interval.contains
  cases i.closed with
  | true => simp
  | false =>
    simp only [Bool.false_eq_true, if_false, Bool.and_eq_true, decide_eq_true_eq, true_implies]
    omega

theorem contains_ten (i : Interval) (scale point : Nat) :
    i.contains (10 * scale) (10 * point) = true ↔ i.contains scale point = true := by
  rw [contains_iff, contains_iff, Nat.mul_left_comm, Nat.mul_left_comm i.high]
  cases i.closed with
  | true => simp
  | false =>
    simp only [true_implies]
    omega

theorem nearest_of_names {d : Decimal} {code : Nat} (h : Names d code) :
    nearest (d.digits * (powerOfTen d.exponent).1 * one) (powerOfTen d.exponent).2 = code := by
  obtain ⟨low, high, strict⟩ := contains_iff.1 h
  have twice : d.digits * (2 * (powerOfTen d.exponent).1 * one) =
      2 * (d.digits * (powerOfTen d.exponent).1 * one) := by ring
  rw [twice] at low high strict
  refine nearest_of_between (powerOfTen_pos _).2 low high fun odd => strict ?_
  simp [interval, odd]

/-- A decimal names the double that is nearest to it. -/
theorem names_iff {d : Decimal} {code : Nat} : Names d code ↔
    nearest (d.digits * (powerOfTen d.exponent).1 * one) (powerOfTen d.exponent).2 = code := by
  constructor
  · exact nearest_of_names
  · intro near
    obtain ⟨low, high, odd⟩ := between_of_nearest (powerOfTen_pos _).2 near
    have twice : d.digits * (2 * (powerOfTen d.exponent).1 * one) =
        2 * (d.digits * (powerOfTen d.exponent).1 * one) := by ring
    unfold Names
    rw [twice]
    refine contains_iff.2 ⟨low, high, fun isOpen => odd ?_⟩
    simpa [interval] using isOpen

theorem roundHalfEven_cases (num den : Nat) :
    roundHalfEven num den = num / den ∨ roundHalfEven num den = num / den + 1 := by
  unfold roundHalfEven
  dsimp only
  split_ifs <;> omega

theorem candidate?_names {code m : Nat} {e : Int} (h : candidate? (interval code) e = some m) :
    Names ⟨m, e⟩ code := by
  unfold candidate? at h
  unfold Names
  generalize powerOfTen e = power at h ⊢
  obtain ⟨p, q⟩ := power
  dsimp only at h ⊢
  generalize 2 * p * one = den at h ⊢
  split at h
  · rename_i here next
    cases h
    rcases roundHalfEven_cases ((interval code).value * q) den with eq | eq
    · rwa [eq]
    · rwa [eq]
  · rename_i here _
    cases h
    exact here
  · rename_i _ next
    cases h
    exact next
  · cases h

/-- There is a candidate when one of the neighbours of the value on the grid is in the interval. -/
theorem exists_candidate_of_neighbour {i : Interval} {e : Int} {scale step : Nat}
    (hscale : (powerOfTen e).2 = scale) (hstep : 2 * (powerOfTen e).1 * one = step)
    (found : i.contains scale (i.value * scale / step * step) = true ∨
      i.contains scale ((i.value * scale / step + 1) * step) = true) :
    ∃ m, candidate? i e = some m := by
  subst hscale hstep
  unfold candidate?
  dsimp only
  rcases found with here | next
  · rw [here]
    split <;> simp_all
  · rw [next]
    split <;> simp_all

theorem powerOfTen_succ (e : Int) :
    ((powerOfTen (e + 1)).1 = 10 * (powerOfTen e).1 ∧ (powerOfTen (e + 1)).2 = (powerOfTen e).2) ∨
    ((powerOfTen (e + 1)).1 = (powerOfTen e).1 ∧ (powerOfTen e).2 = 10 * (powerOfTen (e + 1)).2) := by
  rcases Int.lt_or_le e 0 with neg | nonneg
  · refine .inr ⟨congrArg (Nat.pow 10) (by omega), ?_⟩
    rw [powerOfTen, powerOfTen, show (-e).toNat = (-(e + 1)).toNat + 1 by omega]
    exact Nat.pow_succ'
  · refine .inl ⟨?_, congrArg (Nat.pow 10) (by omega)⟩
    rw [powerOfTen, powerOfTen, show (e + 1).toNat = e.toNat + 1 by omega]
    exact Nat.pow_succ'

/-- A zero at the end of the digits does not count. -/
theorem names_ten {m code : Nat} {e : Int} : Names ⟨10 * m, e⟩ code ↔ Names ⟨m, e + 1⟩ code := by
  unfold Names
  dsimp only
  rcases powerOfTen_succ e with ⟨hp, hq⟩ | ⟨hp, hq⟩
  · have same : m * (2 * (10 * (powerOfTen e).1) * one) = 10 * m * (2 * (powerOfTen e).1 * one) := by
      ring
    rw [hp, hq, same]
  · rw [hp, hq, Nat.mul_assoc 10 m, contains_ten]

theorem trim_names {m code : Nat} {e : Int} (h : Names ⟨m, e⟩ code) : Names (trim m e) code := by
  fun_induction trim m e with
  | case1 m e ten ih =>
    refine ih (names_ten.1 ?_)
    rwa [Nat.mul_div_cancel' (Nat.dvd_of_mod_eq_zero ten.2)]
  | case2 => exact h

/-! ## Seventeen digits are enough -/

/-- The neighbours of a double are further apart than the `10 ^ 16`th part of twice the double. -/
theorem twice_magnitude_lt {code : Nat} (pos : 0 < code) :
    2 * magnitude code + 10 ^ 16 * magnitude (code - 1) < 10 ^ 16 * magnitude (code + 1) := by
  obtain ⟨s, m, rfl, lt, normal⟩ := exists_eq_add code
  have unit : 0 < 2 ^ s := Nat.two_pow_pos s
  rw [magnitude_add (Nat.le_of_lt lt) normal, magnitude_succ lt normal]
  by_cases regular : 0 < m ∧ (s = 0 ∨ binade < m)
  · have pred := magnitude_pred regular.1 (Nat.le_of_lt lt) regular.2
    have bound := Nat.mul_lt_mul_of_pos_right lt unit
    simp only [binade] at *
    omega
  · obtain ⟨t, rfl⟩ : ∃ t, s = t + 1 := ⟨s - 1, by simp only [binade] at *; omega⟩
    obtain rfl : m = binade := by simp only [binade] at *; omega
    have pred := magnitude_pred_binade t
    simp only [binade] at *
    omega

theorem pow_length_le {n : Nat} (pos : 0 < n) : 10 ^ (length n - 1) ≤ n ∧ 0 < length n := by
  fun_induction length n with
  | case1 n small => simp; omega
  | case2 n large ih =>
    obtain ⟨le, lpos⟩ := ih (by omega)
    refine ⟨?_, Nat.succ_pos _⟩
    rw [Nat.add_sub_cancel, show length (n / 10) = length (n / 10) - 1 + 1 by omega, Nat.pow_succ]
    omega

/-- The least positive double has its first digit at most 324 places behind the point. -/
theorem one_le_pow : one ≤ 10 ^ (323 + 1) := by decide +kernel

theorem one_le_places {fuel n : Nat} (h : one ≤ n * 10 ^ (fuel + 1)) : one ≤ n * 10 ^ places fuel n := by
  induction fuel generalizing n with
  | zero => exact h
  | succ fuel ih =>
    rw [places]
    split
    · rename_i le
      simpa using le
    · have := ih (n := n * 10) (by rw [Nat.mul_assoc, ← Nat.pow_succ']; exact h)
      rwa [Nat.mul_assoc, ← Nat.pow_succ'] at this

/-- The power of ten of the leading digit is at most the number. -/
theorem powerOfTen_leading_le {n : Nat} (pos : 0 < n) :
    (powerOfTen (leading n)).1 * one ≤ n * (powerOfTen (leading n)).2 := by
  unfold leading
  split
  · rename_i le
    obtain ⟨hle, lpos⟩ := pow_length_le (Nat.div_pos le Double.one_pos)
    have hp : (powerOfTen ((length (n / one) : Int) - 1)).1 = 10 ^ (length (n / one) - 1) :=
      congrArg (Nat.pow 10) (by omega)
    have hq : (powerOfTen ((length (n / one) : Int) - 1)).2 = 1 :=
      congrArg (Nat.pow 10) (show _ = 0 by omega)
    rw [hp, hq, Nat.mul_one]
    exact (Nat.mul_le_mul_right one hle).trans (Nat.div_mul_le_self n one)
  · have enough : one ≤ n * 10 ^ (323 + 1) := one_le_pow.trans (Nat.le_mul_of_pos_left _ pos)
    have key := one_le_places enough
    generalize places 323 n = k at key ⊢
    have hp : (powerOfTen (-(k : Int))).1 = 1 := congrArg (Nat.pow 10) (show _ = 0 by omega)
    have hq : (powerOfTen (-(k : Int))).2 = 10 ^ k := congrArg (Nat.pow 10) (by omega)
    rwa [hp, hq, Nat.one_mul]

theorem powerOfTen_sub (e : Int) (k : Nat) :
    (powerOfTen (e - k)).1 * (powerOfTen e).2 * 10 ^ k =
      (powerOfTen e).1 * (powerOfTen (e - k)).2 := by
  show 10 ^ (e - k).toNat * 10 ^ (-e).toNat * 10 ^ k = 10 ^ e.toNat * 10 ^ (-(e - k)).toNat
  rw [← Nat.pow_add, ← Nat.pow_add, ← Nat.pow_add]
  congr 1
  omega

/-- Of the two multiples of `step` around the value, one is in an interval wider than `step`. -/
theorem contains_multiple {i : Interval} {scale step : Nat} (pos : 0 < step)
    (low : i.low * scale ≤ i.value * scale) (high : i.value * scale < i.high * scale)
    (narrow : step + i.low * scale < i.high * scale) :
    i.contains scale (i.value * scale / step * step) = true ∨
      i.contains scale ((i.value * scale / step + 1) * step) = true := by
  have below := Nat.div_mul_le_self (i.value * scale) step
  have above := Nat.lt_div_mul_add (a := i.value * scale) pos
  rw [contains_iff, contains_iff, Nat.add_mul, Nat.one_mul]
  generalize i.value * scale / step * step = multiple at *
  by_cases inside : i.low * scale < multiple
  · exact .inl ⟨by omega, by omega, fun _ => by omega⟩
  · exact .inr ⟨by omega, by omega, fun _ => by omega⟩

/-- At seventeen digits the grid is finer than the interval of a double is wide. -/
theorem exists_candidate {code : Nat} (pos : 0 < code) :
    ∃ m, candidate? (interval code) (leading (magnitude code) - (16 : Nat)) = some m := by
  have lower := magnitude_lt_succ (code - 1)
  rw [Nat.sub_add_cancel pos] at lower
  have lead := powerOfTen_leading_le (Nat.zero_lt_of_lt lower)
  have finer := powerOfTen_sub (leading (magnitude code)) 16
  have pPos := (powerOfTen_pos (leading (magnitude code) - (16 : Nat))).1
  have qPos := (powerOfTen_pos (leading (magnitude code) - (16 : Nat))).2
  have qPos' := (powerOfTen_pos (leading (magnitude code))).2
  apply exists_candidate_of_neighbour rfl rfl
  generalize powerOfTen (leading (magnitude code) - (16 : Nat)) = power at *
  generalize powerOfTen (leading (magnitude code)) = power' at *
  obtain ⟨p, q⟩ := power
  obtain ⟨p', q'⟩ := power'
  dsimp only at *
  have step : 10 ^ 16 * (2 * p * one) ≤ 2 * (magnitude code * q) := by
    refine Nat.le_of_mul_le_mul_right ?_ qPos'
    calc 10 ^ 16 * (2 * p * one) * q' = 2 * (p * q' * 10 ^ 16) * one := by ring
      _ = 2 * q * (p' * one) := by rw [finer]; ring
      _ ≤ 2 * q * (magnitude code * q') := Nat.mul_le_mul_left _ lead
      _ = 2 * (magnitude code * q) * q' := by ring
  have gap := Nat.mul_lt_mul_of_pos_right (twice_magnitude_lt pos) qPos
  rw [Nat.add_mul, Nat.mul_assoc 2, Nat.mul_assoc (10 ^ 16), Nat.mul_assoc (10 ^ 16)] at gap
  have lowerScaled := Nat.mul_lt_mul_of_pos_right lower qPos
  have upperScaled := Nat.mul_lt_mul_of_pos_right (magnitude_lt_succ code) qPos
  have stepPos : 0 < 2 * p * one := Nat.mul_pos (Nat.mul_pos (by decide) pPos) Double.one_pos
  generalize 2 * p * one = den at *
  apply contains_multiple stepPos <;> simp only [interval, Nat.add_mul, Nat.mul_assoc 2] <;> omega

/-- The shortest decimal of a double names it. -/
theorem shortest_names (code : Nat) : Names (shortest code) code := by
  unfold shortest
  split
  · rename_i zero
    subst zero
    unfold Names
    decide +kernel
  · rename_i nonzero
    dsimp only
    cases found : (List.range 17).findSome? fun (k : Nat) =>
        (candidate? (interval code) (leading (magnitude code) - (k : Int))).map
          (trim · (leading (magnitude code) - (k : Int))) with
    | none =>
      obtain ⟨m, hm⟩ := exists_candidate (Nat.pos_of_ne_zero nonzero)
      have missed := List.findSome?_eq_none_iff.1 found 16 (by decide)
      rw [hm] at missed
      cases missed
    | some d =>
      obtain ⟨k, -, hk⟩ := List.exists_of_findSome?_eq_some found
      obtain ⟨m, hm, rfl⟩ := Option.map_eq_some_iff.1 hk
      exact trim_names (candidate?_names hm)

end Decimal

namespace Number

open Text (isAsciiDigit)

theorem isAsciiDigit_iff {c : Char} : isAsciiDigit c = true ↔ '0' ≤ c ∧ c ≤ '9' := by
  simp [isAsciiDigit]

theorem digit?_of_isAsciiDigit {c : Char} (h : isAsciiDigit c = true) :
    digit? false c = some (c.toNat - '0'.toNat) := by
  rw [digit?, if_pos (isAsciiDigit_iff.1 h)]

theorem ne_of_isAsciiDigit {c d : Char} (h : isAsciiDigit c = true) (hd : isAsciiDigit d = false) :
    c ≠ d := by
  rintro rfl
  cases h.symm.trans hd

theorem readMantissa_digits (m : Mantissa) {ds : List Char} (rest : List Char)
    (h : ∀ d ∈ ds, isAsciiDigit d = true) :
    readMantissa false m (ds ++ rest) =
      readMantissa false ⟨Nat.ofDigitChars 10 ds m.value,
        if m.point then m.places + ds.length else m.places, m.point, m.digits || !ds.isEmpty⟩ rest := by
  induction ds generalizing m with
  | nil => cases m; simp
  | cons d ds ih =>
    have digit := h d List.mem_cons_self
    rw [List.cons_append, readMantissa, if_neg (ne_of_isAsciiDigit digit (by decide)),
      if_neg (ne_of_isAsciiDigit digit (by decide)), digit?_of_isAsciiDigit digit]
    dsimp only
    rw [ih _ fun d' there => h d' (List.mem_cons_of_mem d there), Nat.ofDigitChars_cons]
    simp only [Bool.false_eq_true, if_false, Nat.mul_comm 10, Bool.true_or, List.isEmpty_cons,
      Bool.not_false, Bool.or_true, List.length_cons]
    congr 2
    split <;> omega

theorem underscoresFit_plain {before : Before} {cs : List Char} (start : before ≠ .underscore)
    (h : ∀ c ∈ cs, isAsciiDigit c = true ∨ c = '.') : underscoresFit false before cs = true := by
  induction cs generalizing before with
  | nil => simpa [underscoresFit] using start
  | cons c cs ih =>
    have more {before : Before} (start : before ≠ .underscore) : underscoresFit false before cs = true :=
      ih start fun c' there => h c' (List.mem_cons_of_mem c there)
    rw [underscoresFit]
    rcases h c List.mem_cons_self with digit | rfl
    · rw [digit?_of_isAsciiDigit digit]
      exact more (by decide)
    · rw [if_neg (by decide), if_neg (by decide), more (by decide)]
      simpa using start

theorem lower_of_isAsciiDigit {c : Char} (h : isAsciiDigit c = true) : lower c = c := by
  have le := (isAsciiDigit_iff.1 h).2
  rw [lower, if_neg]
  rintro ⟨upper, -⟩
  exact absurd (Char.le_trans upper le) (by decide)

/-- A text that starts with a digit, and not with a base mark, is read as a decimal. -/
theorem readChars_eq_decimal? {d : Char} {cs : List Char} (h : isAsciiDigit d = true)
    (next : ∀ c ∈ cs.head?, lower c ≠ 'x') : readChars (d :: cs) = decimal? false (d :: cs) := by
  have noWord : word? false false (d :: cs) = none := by
    have first (c : Char) (hc : isAsciiDigit c = false) : lower d ≠ c := by
      rw [lower_of_isAsciiDigit h]
      exact ne_of_isAsciiDigit h hc
    unfold word?
    rw [List.map_cons, if_neg, if_neg]
    · rintro ⟨eq, -⟩
      exact first 'n' (by decide) (List.cons.inj eq).1
    · rintro (eq | eq)
      · exact first 'i' (by decide) (List.cons.inj eq).1
      · exact first 'i' (by decide) (List.cons.inj eq).1
  have unsigned : unsigned? false (d :: cs) = decimal? false (d :: cs) := by
    unfold unsigned?
    split
    · rename_i x c rest heq
      obtain ⟨rfl, rfl⟩ := List.cons.inj heq
      rw [if_neg (next x rfl)]
    · rfl
  unfold readChars
  split
  rename_i signed negative body heq
  split at heq
  · rename_i sign
    cases sign
    cases h
  · rename_i sign
    cases sign
    cases h
  · cases heq
    rw [noWord, unsigned]
    rfl

/-- What a mantissa that takes the whole text is read as. -/
theorem decimal?_eq_nearest? {cs : List Char} {m : Mantissa}
    (read : readMantissa false {} cs = (m, [])) (digits : m.digits = true)
    (plain : ∀ c ∈ cs, isAsciiDigit c = true ∨ c = '.') :
    decimal? false cs = nearest? false m.value 10 (-(m.places : Int)) := by
  have fits : underscoresFit false .start cs = true := underscoresFit_plain (by decide) plain
  have unmarked : exponent? 'e' [] = some (none, []) := rfl
  -- Step by step: a step that compares with the result would compute powers of two.
  rw [decimal?, read]
  dsimp only
  rw [digits, fits, if_neg (by decide), unmarked, Option.bind_eq_bind, Option.bind_some,
    if_neg (by decide), if_neg (by decide)]
  exact congrArg (nearest? false m.value 10) (Int.zero_sub _)

theorem readMantissa_whole {ds : List Char} (nonempty : ds ≠ [])
    (digits : ∀ d ∈ ds, isAsciiDigit d = true) :
    readMantissa false {} ds = (⟨Nat.ofDigitChars 10 ds 0, 0, false, true⟩, []) := by
  have mantissa := readMantissa_digits {} [] digits
  rw [List.append_nil, readMantissa] at mantissa
  simpa [List.isEmpty_eq_false_iff.2 nonempty] using mantissa

theorem readMantissa_pointed {ds ps : List Char} (nonempty : ds ≠ [])
    (digits : ∀ d ∈ ds, isAsciiDigit d = true) (places : ∀ d ∈ ps, isAsciiDigit d = true) :
    readMantissa false {} (ds ++ '.' :: ps) =
      (⟨Nat.ofDigitChars 10 (ds ++ ps) 0, ps.length, true, true⟩, []) := by
  rw [readMantissa_digits {} _ digits, readMantissa, if_neg (by decide), if_pos rfl]
  have behind := readMantissa_digits ⟨Nat.ofDigitChars 10 ds 0, 0, true, true⟩ [] places
  rw [List.append_nil, readMantissa] at behind
  simpa [Nat.ofDigitChars_append, List.isEmpty_eq_false_iff.2 nonempty] using behind

theorem read_whole {ds : List Char} (nonempty : ds ≠ []) (digits : ∀ d ∈ ds, isAsciiDigit d = true) :
    readChars ds = nearest? false (Nat.ofDigitChars 10 ds 0) 10 0 := by
  have mantissa := readMantissa_whole nonempty digits
  obtain ⟨d, cs, rfl⟩ := List.exists_cons_of_ne_nil nonempty
  rw [readChars_eq_decimal? (digits d List.mem_cons_self),
    decimal?_eq_nearest? mantissa rfl fun c there => .inl (digits c there)]
  · simp
  · intro c there
    have digit := digits c (List.mem_cons_of_mem d (List.mem_of_mem_head? there))
    rw [lower_of_isAsciiDigit digit]
    exact ne_of_isAsciiDigit digit (by decide)

theorem read_pointed {ds ps : List Char} (nonempty : ds ≠ [])
    (digits : ∀ d ∈ ds, isAsciiDigit d = true) (places : ∀ d ∈ ps, isAsciiDigit d = true) :
    readChars (ds ++ '.' :: ps) =
      nearest? false (Nat.ofDigitChars 10 (ds ++ ps) 0) 10 (-(ps.length : Int)) := by
  have mantissa := readMantissa_pointed nonempty digits places
  obtain ⟨d, cs, rfl⟩ := List.exists_cons_of_ne_nil nonempty
  rw [List.cons_append] at mantissa ⊢
  rw [readChars_eq_decimal? (digits d List.mem_cons_self), decimal?_eq_nearest? mantissa rfl]
  · intro c there
    rw [← List.cons_append] at there
    rcases List.mem_append.1 there with there | there
    · exact .inl (digits c there)
    · rcases List.mem_cons.1 there with point | there
      · exact .inr point
      · exact .inl (places c there)
  · intro c there
    cases cs with
    | nil =>
      cases there
      decide
    | cons c' cs =>
      cases there
      have digit := digits c (by simp)
      rw [lower_of_isAsciiDigit digit]
      exact ne_of_isAsciiDigit digit (by decide)

end Number

namespace Decimal

open Text (isAsciiDigit)

theorem isAsciiDigit_of_mem_toDigits {n : Nat} {c : Char} (h : c ∈ Nat.toDigits 10 n) :
    isAsciiDigit c = true := by
  have digit := Nat.isDigit_of_mem_toDigits (by decide) (by decide) h
  simp only [Char.isDigit, Bool.and_eq_true, decide_eq_true_eq] at digit
  exact Number.isAsciiDigit_iff.2 digit

theorem isAsciiDigit_of_mem_replicate {n : Nat} {c : Char} (h : c ∈ List.replicate n '0') :
    isAsciiDigit c = true := by
  rw [List.eq_of_mem_replicate h]
  rfl

/-- How a decimal is spelled with plain digits: as a whole number, or with a point among the digits. -/
theorem positional_spelled (d : Decimal) :
    (∃ ds, d.positional = ds ∧ ds ≠ [] ∧ (∀ c ∈ ds, isAsciiDigit c = true) ∧ 0 ≤ d.exponent ∧
      Nat.ofDigitChars 10 ds 0 = d.digits * 10 ^ d.exponent.toNat) ∨
    (∃ ds ps, d.positional = ds ++ '.' :: ps ∧ ds ≠ [] ∧ ps ≠ [] ∧
      (∀ c ∈ ds, isAsciiDigit c = true) ∧ (∀ c ∈ ps, isAsciiDigit c = true) ∧
      (ps.length : Int) = -d.exponent ∧ Nat.ofDigitChars 10 (ds ++ ps) 0 = d.digits) := by
  have value : Nat.ofDigitChars 10 (Nat.toDigits 10 d.digits) 0 = d.digits :=
    Nat.ofDigitChars_ten_toDigits
  have nonempty : Nat.toDigits 10 d.digits ≠ [] := Nat.toDigits_ne_nil
  have digits : ∀ c ∈ Nat.toDigits 10 d.digits, isAsciiDigit c = true :=
    fun _ => isAsciiDigit_of_mem_toDigits
  unfold positional
  dsimp only
  generalize Nat.toDigits 10 d.digits = cs at *
  have long : 0 < cs.length := List.length_pos_iff.2 nonempty
  split
  · rename_i before
    refine .inr ⟨['0'], List.replicate (-(cs.length + d.exponent)).toNat '0' ++ cs, rfl, by simp,
      by simp [nonempty], List.forall_mem_singleton.2 rfl, ?_, ?_, ?_⟩
    · intro c there
      rcases List.mem_append.1 there with zero | there
      · exact isAsciiDigit_of_mem_replicate zero
      · exact digits c there
    · rw [List.length_append, List.length_replicate]
      omega
    · rw [List.singleton_append, Nat.ofDigitChars_cons, Nat.ofDigitChars_append,
        Nat.ofDigitChars_replicate_zero]
      exact value
  · rename_i within
    split
    · rename_i behind
      refine .inl ⟨_, rfl, by simp [nonempty], ?_, by omega, ?_⟩
      · intro c there
        rcases List.mem_append.1 there with there | zero
        · exact digits c there
        · exact isAsciiDigit_of_mem_replicate zero
      · rw [Nat.ofDigitChars_append, Nat.ofDigitChars_replicate_zero, value, Nat.mul_comm]
        congr 2
        omega
    · rename_i among
      refine .inr ⟨_, _, rfl, ?_, ?_, fun c there => digits c (List.mem_of_mem_take there),
        fun c there => digits c (List.mem_of_mem_drop there), ?_, ?_⟩
      · rw [ne_eq, List.take_eq_nil_iff]
        rintro (empty | empty)
        · omega
        · exact nonempty empty
      · rw [ne_eq, List.drop_eq_nil_iff]
        omega
      · rw [List.length_drop]
        omega
      · rw [List.take_append_drop, value]

theorem plain_of_mem_positional {d : Decimal} {c : Char} (h : c ∈ d.positional) :
    isAsciiDigit c = true ∨ c = '.' := by
  rcases d.positional_spelled with ⟨ds, spelled, -, digits, -, -⟩ |
    ⟨ds, ps, spelled, -, -, digits, places, -, -⟩
  · rw [spelled] at h
    exact .inl (digits c h)
  · rw [spelled, List.mem_append, List.mem_cons] at h
    rcases h with there | point | there
    · exact .inl (digits c there)
    · exact .inr point
    · exact .inl (places c there)

/-- The digits of a decimal are its value, without the point. -/
theorem readMantissa_positional (d : Decimal) :
    ∃ m, Number.readMantissa false {} d.positional = (m, []) ∧
      m.value = d.digits * (powerOfTen d.exponent).1 ∧ 10 ^ m.places = (powerOfTen d.exponent).2 := by
  rcases d.positional_spelled with ⟨ds, spelled, nonempty, digits, whole, value⟩ |
    ⟨ds, ps, spelled, nonempty, -, digits, places, exponent, value⟩
  · rw [spelled]
    refine ⟨_, Number.readMantissa_whole nonempty digits, value, ?_⟩
    rw [powerOfTen, show (-d.exponent).toNat = 0 by omega]
    rfl
  · rw [spelled]
    refine ⟨_, Number.readMantissa_pointed nonempty digits places, ?_, ?_⟩
    · rw [powerOfTen, show d.exponent.toNat = 0 by omega]
      exact value.trans (Nat.mul_one _).symm
    · rw [powerOfTen, ← exponent, Int.toNat_natCast]
      rfl

/-- A decimal with its sign. -/
def spelled (negative : Bool) (d : Decimal) : String :=
  String.ofList (if negative then '-' :: d.positional else d.positional)

theorem nearest?_of_names {d : Decimal} {code : Nat} (h : Names d code) (lt : code < Double.infinity) :
    Number.nearest? false d.digits 10 d.exponent = some (Double.ofCode false code) := by
  have same := nearest_of_names h
  simp only [powerOfTen] at same
  unfold Number.nearest?
  dsimp only
  rw [same, if_pos lt]

/-- Zeros behind the digits of a whole number are digits. -/
theorem nearest?_whole (digits : Nat) {e : Int} (whole : 0 ≤ e) :
    Number.nearest? false (digits * 10 ^ e.toNat) 10 0 = Number.nearest? false digits 10 e := by
  obtain ⟨n, rfl⟩ := Int.eq_ofNat_of_zero_le whole
  have none : (-(n : Int)).toNat = 0 := by omega
  have first : Nat.pow 10 (Int.toNat 0) = 1 := rfl
  have second : Nat.pow 10 (-(0 : Int)).toNat = Nat.pow 10 0 := rfl
  unfold Number.nearest?
  dsimp only
  rw [none, first, second, Int.toNat_natCast, Nat.mul_one]
  rfl

/-- A decimal is read as the double that it names. -/
theorem readChars_positional {d : Decimal} {code : Nat} (h : Names d code)
    (lt : code < Double.infinity) :
    Number.readChars d.positional = some (Double.ofCode false code) := by
  rcases d.positional_spelled with ⟨ds, spelled, nonempty, digits, exponent, value⟩ |
    ⟨ds, ps, spelled, nonempty, _, digits, places, exponent, value⟩
  · rw [spelled, Number.read_whole nonempty digits, value, nearest?_whole _ exponent]
    exact nearest?_of_names h lt
  · rw [spelled, Number.read_pointed nonempty digits places, value, exponent, Int.neg_neg]
    exact nearest?_of_names h lt

end Decimal

namespace Value

/-- A finite number is printed as its shortest decimal. -/
theorem text_of_finite {x : Float} (finite : x.isFinite = true) :
    (number x).text = (Decimal.shortest (Double.code x)).spelled (Double.negative x) := by
  have lt := Double.code_lt_infinity finite
  have nan := Double.isNaN_of_isFinite finite
  simp only [text, NumberFormat.render, nan, Bool.false_eq_true, if_false,
    if_neg (Nat.not_le.2 lt), NumberFormat.finite, printed, if_true]
  rfl

theorem toList_text {x : Float} (finite : x.isFinite = true) (sign : Double.negative x = false) :
    (number x).text.toList = (Decimal.shortest (Double.code x)).positional := by
  rw [text_of_finite finite, sign, Decimal.spelled, String.toList_ofList]
  rfl

/-- A finite number with a clear sign is read back from its text. -/
theorem read?_text {x : Float} (finite : x.isFinite = true) (sign : Double.negative x = false) :
    Number.read? (number x).text = some x := by
  have lt := Double.code_lt_infinity finite
  rw [Number.read?, toList_text finite sign,
    Decimal.readChars_positional (Decimal.shortest_names _) lt, Double.ofCode_code sign]

end Value

end LetWhile
