import LetWhile.Text.Utf8
import Mathlib.Data.List.Basic

/-!
# Texts as bytes

The bytes of a text are read as the text (`Text.decode_toUTF8`): the bytes of a character as the
character (`Text.decode_utf8EncodeChar`). A byte that starts no character is read as the replacement
character (`Text.decode_of_no_character`).
-/

namespace LetWhile.Text

theorem continuation?_ofNat {n : Nat} (lt : n < 64) :
    continuation? (UInt8.ofNat (n + 128)) = some n := by
  have value := UInt8.toNat_ofNat_of_lt' (show n + 128 < 256 by omega)
  have range : 0x80 ≤ UInt8.ofNat (n + 128) ∧ UInt8.ofNat (n + 128) < 0xC0 := by
    rw [UInt8.le_iff_toNat_le, UInt8.lt_iff_toNat_lt, value]
    simp only [UInt8.reduceToNat]
    omega
  rw [continuation?, if_pos range, value, Nat.add_sub_cancel]

theorem scalar?_toNat {c : Char} {least n : Nat} (same : n = c.toNat) (le : least ≤ n) :
    scalar? least n = some c := by
  subst same
  have valid : c.toNat.isValidChar := c.valid
  rw [scalar?, dif_pos valid, if_pos le]
  rfl

theorem toNat_lt (c : Char) : c.toNat < 0x110000 := by
  have valid : c.toNat.isValidChar := c.valid
  unfold Nat.isValidChar at valid
  omega

theorem sequence?_one {c : Char} (bytes : List UInt8) (h : c.toNat < 128) :
    sequence? (UInt8.ofNat c.toNat) bytes = some (c, 0) := by
  have first := UInt8.toNat_ofNat_of_lt' (show c.toNat < 256 by omega)
  simp only [sequence?, UInt8.lt_iff_toNat_lt, first, UInt8.reduceToNat]
  rw [if_pos h, Char.ofNat_toNat]

theorem sequence?_two {x y : Nat} {c : Char} (bytes : List UInt8) (hx : x < 32) (hy : y < 64)
    (h : scalar? 0x80 (x * 64 + y) = some c) :
    sequence? (UInt8.ofNat (x + 192)) (UInt8.ofNat (y + 128) :: bytes) = some (c, 1) := by
  have first := UInt8.toNat_ofNat_of_lt' (show x + 192 < 256 by omega)
  simp only [sequence?, UInt8.lt_iff_toNat_lt, first, UInt8.reduceToNat]
  rw [if_neg (by omega), if_neg (by omega), if_pos (by omega)]
  simp only [List.getElem?_cons_zero, Option.bind_eq_bind, Option.bind_some, continuation?_ofNat hy,
    Nat.add_sub_cancel, h]
  rfl

theorem sequence?_three {x y z : Nat} {c : Char} (bytes : List UInt8) (hx : x < 16) (hy : y < 64)
    (hz : z < 64) (h : scalar? 0x800 ((x * 64 + y) * 64 + z) = some c) :
    sequence? (UInt8.ofNat (x + 224)) (UInt8.ofNat (y + 128) :: UInt8.ofNat (z + 128) :: bytes) =
      some (c, 2) := by
  have first := UInt8.toNat_ofNat_of_lt' (show x + 224 < 256 by omega)
  simp only [sequence?, UInt8.lt_iff_toNat_lt, first, UInt8.reduceToNat]
  rw [if_neg (by omega), if_neg (by omega), if_neg (by omega), if_pos (by omega)]
  simp only [List.getElem?_cons_zero, List.getElem?_cons_succ, Option.bind_eq_bind, Option.bind_some,
    continuation?_ofNat hy, continuation?_ofNat hz, Nat.add_sub_cancel, h]
  rfl

theorem sequence?_four {w x y z : Nat} {c : Char} (bytes : List UInt8) (hw : w < 8) (hx : x < 64)
    (hy : y < 64) (hz : z < 64) (h : scalar? 0x10000 (((w * 64 + x) * 64 + y) * 64 + z) = some c) :
    sequence? (UInt8.ofNat (w + 240))
      (UInt8.ofNat (x + 128) :: UInt8.ofNat (y + 128) :: UInt8.ofNat (z + 128) :: bytes) =
      some (c, 3) := by
  have first := UInt8.toNat_ofNat_of_lt' (show w + 240 < 256 by omega)
  simp only [sequence?, UInt8.lt_iff_toNat_lt, first, UInt8.reduceToNat]
  rw [if_neg (by omega), if_neg (by omega), if_neg (by omega), if_neg (by omega), if_pos (by omega)]
  simp only [List.getElem?_cons_zero, List.getElem?_cons_succ, Option.bind_eq_bind, Option.bind_some,
    continuation?_ofNat hx, continuation?_ofNat hy, continuation?_ofNat hz, Nat.add_sub_cancel, h]
  rfl

/-- The first byte of a character tells how many bytes follow. -/
theorem sequence?_utf8EncodeChar (c : Char) (bytes : List UInt8) :
    ∃ b bs, String.utf8EncodeChar c = b :: bs ∧ sequence? b (bs ++ bytes) = some (c, bs.length) := by
  have last := toNat_lt c
  have value : c.val.toNat = c.toNat := rfl
  unfold String.utf8EncodeChar
  dsimp only
  rw [value]
  split_ifs with one two three
  · exact ⟨_, _, rfl, sequence?_one _ (by omega)⟩
  · exact ⟨_, _, rfl, sequence?_two _ (Nat.mod_lt _ (by decide)) (Nat.mod_lt _ (by decide))
      (scalar?_toNat (by omega) (by omega))⟩
  · exact ⟨_, _, rfl, sequence?_three _ (Nat.mod_lt _ (by decide)) (Nat.mod_lt _ (by decide))
      (Nat.mod_lt _ (by decide)) (scalar?_toNat (by omega) (by omega))⟩
  · exact ⟨_, _, rfl, sequence?_four _ (Nat.mod_lt _ (by decide)) (Nat.mod_lt _ (by decide))
      (Nat.mod_lt _ (by decide)) (Nat.mod_lt _ (by decide)) (scalar?_toNat (by omega) (by omega))⟩

theorem decode_utf8EncodeChar (c : Char) (bytes : List UInt8) :
    decode (String.utf8EncodeChar c ++ bytes) = c :: decode bytes := by
  obtain ⟨b, bs, encoded, read⟩ := sequence?_utf8EncodeChar c bytes
  rw [encoded, List.cons_append, decode, read]
  dsimp only
  rw [List.drop_left]

/-- The bytes of a text are read as the text. -/
theorem decode_toUTF8 (s : String) : decode s.toUTF8.data.toList = s.toList := by
  have bytes : s.toUTF8 = (s.toList.flatMap String.utf8EncodeChar).toByteArray := by
    conv => lhs; rw [← String.ofList_toList (s := s)]
    exact String.toByteArray_ofList
  rw [bytes, List.toList_data_toByteArray]
  induction s.toList with
  | nil => simp [decode]
  | cons c cs ih => rw [List.flatMap_cons, decode_utf8EncodeChar, ih]

/-! ## Bytes that belong to no character -/

theorem eq_of_continuation? {b : UInt8} {n : Nat} (h : continuation? b = some n) :
    n < 64 ∧ b = UInt8.ofNat (n + 128) := by
  rw [continuation?] at h
  split at h
  · rename_i range
    rw [UInt8.le_iff_toNat_le, UInt8.lt_iff_toNat_lt] at range
    simp only [UInt8.reduceToNat] at range
    have value := Option.some.inj h
    have code : n + 128 = b.toNat := by omega
    rw [code, UInt8.ofNat_toNat]
    exact ⟨by omega, rfl⟩
  · cases h

theorem byte_of_continuation {bs : List UInt8} {i n : Nat} (h : bs[i]? >>= continuation? = some n) :
    n < 64 ∧ bs[i]? = some (UInt8.ofNat (n + 128)) := by
  obtain ⟨b, there, code⟩ := Option.bind_eq_some_iff.1 h
  obtain ⟨lt, rfl⟩ := eq_of_continuation? code
  exact ⟨lt, there⟩

theorem val_of_scalar? {least n : Nat} {c : Char} (h : scalar? least n = some c) :
    c.val.toNat = n ∧ least ≤ n := by
  by_cases valid : n.isValidChar
  · by_cases le : least ≤ n
    · rw [scalar?, dif_pos valid, if_pos le] at h
      cases h
      exact ⟨rfl, le⟩
    · rw [scalar?, dif_pos valid, if_neg le] at h
      cases h
  · rw [scalar?, dif_neg valid] at h
    cases h

/-- What is read as a character are the bytes of the character. -/
theorem utf8EncodeChar_of_sequence? {b : UInt8} {bs : List UInt8} {c : Char} {n : Nat}
    (h : sequence? b bs = some (c, n)) : String.utf8EncodeChar c = b :: bs.take n := by
  have lead {x k : Nat} (same : x + k = b.toNat) : UInt8.ofNat (x + k) = b := by
    rw [same, UInt8.ofNat_toNat]
  unfold sequence? at h
  simp only [UInt8.lt_iff_toNat_lt, UInt8.reduceToNat, Option.bind_eq_bind] at h
  split_ifs at h with one none two three four
  · cases h
    have valid : b.toNat.isValidChar := .inl (by omega)
    have code : (Char.ofNat b.toNat).val.toNat = b.toNat := by
      rw [Char.ofNat, dif_pos valid]
      rfl
    unfold String.utf8EncodeChar
    rw [code, if_pos (by omega), UInt8.ofNat_toNat, List.take_zero]
  · obtain ⟨x, first, h⟩ := Option.bind_eq_some_iff.1 h
    obtain ⟨c', code, h⟩ := Option.bind_eq_some_iff.1 h
    cases h
    obtain ⟨hx, first⟩ := byte_of_continuation first
    obtain ⟨value, least⟩ := val_of_scalar? code
    unfold String.utf8EncodeChar
    dsimp only
    rw [value, if_neg (by omega), if_pos (by omega), lead (by omega),
      show ((b.toNat - 192) * 64 + x) % 64 = x by omega]
    simp [List.take_add_one, first]
  · obtain ⟨x, first, h⟩ := Option.bind_eq_some_iff.1 h
    obtain ⟨y, second, h⟩ := Option.bind_eq_some_iff.1 h
    obtain ⟨c', code, h⟩ := Option.bind_eq_some_iff.1 h
    cases h
    obtain ⟨hx, first⟩ := byte_of_continuation first
    obtain ⟨hy, second⟩ := byte_of_continuation second
    obtain ⟨value, least⟩ := val_of_scalar? code
    unfold String.utf8EncodeChar
    dsimp only
    rw [value, if_neg (by omega), if_neg (by omega), if_pos (by omega), lead (by omega),
      show (((b.toNat - 224) * 64 + x) * 64 + y) / 64 % 64 = x by omega,
      show (((b.toNat - 224) * 64 + x) * 64 + y) % 64 = y by omega]
    simp [List.take_add_one, first, second]
  · obtain ⟨x, first, h⟩ := Option.bind_eq_some_iff.1 h
    obtain ⟨y, second, h⟩ := Option.bind_eq_some_iff.1 h
    obtain ⟨z, third, h⟩ := Option.bind_eq_some_iff.1 h
    obtain ⟨c', code, h⟩ := Option.bind_eq_some_iff.1 h
    cases h
    obtain ⟨hx, first⟩ := byte_of_continuation first
    obtain ⟨hy, second⟩ := byte_of_continuation second
    obtain ⟨hz, third⟩ := byte_of_continuation third
    obtain ⟨value, least⟩ := val_of_scalar? code
    unfold String.utf8EncodeChar
    dsimp only
    rw [value, if_neg (by omega), if_neg (by omega), if_neg (by omega), lead (by omega),
      show ((((b.toNat - 240) * 64 + x) * 64 + y) * 64 + z) / 4096 % 64 = x by omega,
      show ((((b.toNat - 240) * 64 + x) * 64 + y) * 64 + z) / 64 % 64 = y by omega,
      show ((((b.toNat - 240) * 64 + x) * 64 + y) * 64 + z) % 64 = z by omega]
    simp [List.take_add_one, first, second, third]

/-- A byte that starts no character is read as one replacement character, and reading goes on behind
it. -/
theorem decode_of_no_character {b : UInt8} {bs : List UInt8}
    (none : ∀ c rest, b :: bs ≠ String.utf8EncodeChar c ++ rest) :
    decode (b :: bs) = replacement :: decode bs := by
  rw [decode]
  cases read : sequence? b bs with
  | none => rfl
  | some found =>
    obtain ⟨c, n⟩ := found
    refine absurd ?_ (none c (bs.drop n))
    rw [utf8EncodeChar_of_sequence? read, List.cons_append, List.take_append_drop]

end LetWhile.Text
