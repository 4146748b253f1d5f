import LetWhile.Token.Scan
import Mathlib.Data.List.TakeWhile

/-!
# Lexemes

What a token of each kind is spelled with and what can stand behind it, and that one reading step
takes such a token:

* `Munched`: a value is a token of its kind, and the text behind it makes it no longer;
* `Unreadable`: a text starts with no token;
* `read_token`, `read_broken`: a reading step gives the one or finds the other.
-/

namespace LetWhile

namespace Token

/-- The characters that a token of this kind with this value is read from. -/
def Kind.spelling (kind : Kind) (value : List Char) : List Char :=
  if kind = .lineComment then '/' :: '/' :: value else value

def spelling (t : Token) : List Char := t.kind.spelling t.text.toList

/-- The value is a token of this kind, and no longer token starts at its place when `rest` follows. -/
inductive Munched : Kind → List Char → List Char → Prop where
  | whole {ds rest : List Char} (nonempty : ds ≠ []) (digits : ∀ d ∈ ds, Text.isAsciiDigit d = true)
      (behind : ∀ c ∈ rest.head?, Text.isAsciiDigit c = false ∧ c ≠ '.') :
      Munched .number ds rest
  | decimal {ds ps rest : List Char} (nonempty : ds ≠ []) (digits : ∀ d ∈ ds, Text.isAsciiDigit d = true)
      (places : ps ≠ []) (decimals : ∀ d ∈ ps, Text.isAsciiDigit d = true)
      (behind : ∀ c ∈ rest.head?, Text.isAsciiDigit c = false) :
      Munched .number (ds ++ '.' :: ps) rest
  | keyword {kind : Kind} {w rest : List Char} (entry : (w, kind) ∈ Lexeme.keywords)
      (behind : ∀ c ∈ rest.head?, Lexeme.inWord c = false) :
      Munched kind w rest
  | identifier {c : Char} {cs rest : List Char} (first : Lexeme.startsWord c = true)
      (others : ∀ x ∈ cs, Lexeme.inWord x = true) (free : c :: cs ∉ Lexeme.keywords.map Prod.fst)
      (behind : ∀ c ∈ rest.head?, Lexeme.inWord c = false) :
      Munched .identifier (c :: cs) rest
  | operator {kind : Kind} {w rest : List Char} (entry : (w, kind) ∈ Lexeme.operators)
      (proper : kind ≠ .lineComment)
      (longest : ∀ e ∈ Lexeme.operators, e.1 <+: w ++ rest → e.1.length ≤ w.length) :
      Munched kind w rest
  | comment {value rest : List Char} (line : '\n' ∉ value) (behind : ∀ c ∈ rest.head?, c = '\n') :
      Munched .lineComment value rest

end Token

/-- A text that starts with no token: a character that starts neither a blank, a number, a word nor
an operator, or digits with a point and no digit behind them. -/
inductive Unreadable : List Char → Prop where
  | symbol {c : Char} {cs : List Char} (space : Text.isSpace c = false)
      (digit : Text.isAsciiDigit c = false) (word : Lexeme.startsWord c = false)
      (operator : ∀ e ∈ Lexeme.operators, ¬ e.1 <+: c :: cs) :
      Unreadable (c :: cs)
  | number {ds cs : List Char} (nonempty : ds ≠ []) (digits : ∀ d ∈ ds, Text.isAsciiDigit d = true)
      (behind : ∀ c ∈ cs.head?, Text.isAsciiDigit c = false) :
      Unreadable (ds ++ '.' :: cs)

namespace Lexeme

open Token

theorem head?_dropWhile_eq_false (p : Char → Bool) (cs : List Char) :
    ∀ c ∈ (cs.dropWhile p).head?, p c = false := by
  intro c hc
  have h := List.head?_dropWhile_not p cs
  rw [Option.mem_def] at hc
  simpa [hc] using h

theorem takeWhile_cons_ne_nil {p : Char → Bool} {c : Char} (cs : List Char) (h : p c = true) :
    (c :: cs).takeWhile p ≠ [] := by
  simp [h]

theorem mem_of_lookup_eq_some {table : List (List Char × Token.Kind)} {w : List Char}
    {kind : Token.Kind} (h : table.lookup w = some kind) : (w, kind) ∈ table := by
  obtain ⟨before, behind, rfl, -⟩ := List.lookup_eq_some_iff.1 h
  simp

theorem inWord_of_startsWord {c : Char} (h : startsWord c = true) : inWord c = true := by
  simp only [startsWord, Bool.or_eq_true, decide_eq_true_eq] at h
  simp only [inWord, Bool.or_eq_true, decide_eq_true_eq]
  rcases h with h | h
  · exact .inl (.inl h)
  · exact .inr h

theorem number_spec {c : Char} (cs : List Char) (h : Text.isAsciiDigit c = true) :
    (∃ value rest, number (c :: cs) = .token .number value value rest ∧
      c :: cs = value ++ rest ∧ Munched .number value rest) ∨
    (∃ message lexeme rest, number (c :: cs) = .broken message lexeme rest ∧
      Unreadable (c :: cs)) := by
  have whole := takeWhile_cons_ne_nil cs h
  have digits : ∀ d ∈ (c :: cs).takeWhile Text.isAsciiDigit, Text.isAsciiDigit d = true :=
    fun _ => List.mem_takeWhile_imp
  have split := List.takeWhile_append_dropWhile (p := Text.isAsciiDigit) (l := c :: cs)
  have behind := head?_dropWhile_eq_false Text.isAsciiDigit (c :: cs)
  unfold number
  split
  · rename_i r heq
    have places := List.takeWhile_append_dropWhile (p := Text.isAsciiDigit) (l := r)
    rw [heq] at split
    by_cases hp : (r.takeWhile Text.isAsciiDigit).isEmpty
    · right
      simp only [hp, if_true]
      refine ⟨_, _, _, rfl, ?_⟩
      rw [← split]
      refine .number whole digits ?_
      have same : r.dropWhile Text.isAsciiDigit = r := by
        rw [List.isEmpty_iff] at hp
        rwa [hp, List.nil_append] at places
      have := head?_dropWhile_eq_false Text.isAsciiDigit r
      rwa [same] at this
    · left
      simp only [hp, Bool.false_eq_true, if_false]
      refine ⟨_, _, rfl, ?_, ?_⟩
      · rw [List.append_assoc, List.cons_append, places, split]
      · exact .decimal whole digits (by simpa using hp) (fun _ => List.mem_takeWhile_imp)
          (head?_dropWhile_eq_false Text.isAsciiDigit r)
  · rename_i r hpoint
    left
    refine ⟨_, _, rfl, split.symm, .whole whole digits ?_⟩
    intro d hd
    refine ⟨behind d hd, ?_⟩
    rintro rfl
    obtain ⟨tail, htail⟩ := List.head?_eq_some_iff.1 (Option.mem_def.1 hd)
    exact hpoint tail htail

theorem word_spec {c : Char} (cs : List Char) (h : startsWord c = true) :
    ∃ kind value rest, word (c :: cs) = .token kind value value rest ∧ kind ≠ .lineComment ∧
      c :: cs = value ++ rest ∧ Munched kind value rest := by
  have behind := head?_dropWhile_eq_false inWord (c :: cs)
  have split := List.takeWhile_append_dropWhile (p := inWord) (l := c :: cs)
  refine ⟨_, _, _, rfl, ?_, split.symm, ?_⟩
  · have proper : ∀ e ∈ keywords, e.2 ≠ .lineComment := by decide
    cases hk : keywords.lookup ((c :: cs).takeWhile inWord) with
    | none => simp
    | some kind => exact proper _ (mem_of_lookup_eq_some hk)
  · cases hk : keywords.lookup ((c :: cs).takeWhile inWord) with
    | some kind => exact .keyword (mem_of_lookup_eq_some hk) behind
    | none =>
      have first := inWord_of_startsWord h
      have free : (c :: cs).takeWhile inWord ∉ keywords.map Prod.fst := by
        intro hmem
        obtain ⟨⟨w, kind⟩, hentry, hw⟩ := List.mem_map.1 hmem
        have := List.lookup_eq_none_iff.1 hk _ hentry
        simp [← hw] at this
      rw [List.takeWhile_cons, if_pos first] at free ⊢
      exact .identifier h (fun _ => List.mem_takeWhile_imp) free behind

/-- The table lists longer operators first, so the first one that fits is the longest. -/
theorem longest_of_find {text w : List Char} {kind : Token.Kind}
    (h : operators.find? (·.1.isPrefixOf text) = some (w, kind)) :
    ∀ e ∈ operators, e.1 <+: text → e.1.length ≤ w.length := by
  have sorted : operators.Pairwise fun a b => b.1.length ≤ a.1.length := by decide
  obtain ⟨-, before, behind, hsplit, hmiss⟩ := List.find?_eq_some_iff_append.1 h
  intro e he hpre
  rw [hsplit] at he sorted
  rcases List.mem_append.1 he with he | he
  · have := hmiss e he
    rw [List.isPrefixOf_iff_prefix.2 hpre] at this
    cases this
  · rcases List.mem_cons.1 he with rfl | he
    · exact Nat.le_refl _
    · exact (List.pairwise_cons.1 (List.pairwise_append.1 sorted).2.1).1 e he

theorem comment_spec (cs : List Char) :
    ∃ value rest, comment cs = .token .lineComment value ('/' :: '/' :: value) rest ∧
      cs = value ++ rest ∧ Munched .lineComment value rest := by
  refine ⟨_, _, rfl, List.takeWhile_append_dropWhile.symm, .comment ?_ ?_⟩
  · intro hmem
    have := List.mem_takeWhile_imp hmem
    simp at this
  · intro c hc
    have := head?_dropWhile_eq_false _ _ c hc
    simpa using this

theorem operator_spec {c : Char} (cs : List Char) (space : Text.isSpace c = false)
    (digit : Text.isAsciiDigit c = false) (word : startsWord c = false) :
    (∃ kind value rest, operator c cs = .token kind value (kind.spelling value) rest ∧
      c :: cs = kind.spelling value ++ rest ∧ Munched kind value rest) ∨
    (∃ message lexeme rest, operator c cs = .broken message lexeme rest ∧
      Unreadable (c :: cs)) := by
  unfold operator
  split
  · rename_i w hfind
    left
    have opens : ∀ e ∈ operators, e.2 = .lineComment → e.1 = ['/', '/'] := by decide
    have hw := opens _ (List.mem_of_find?_eq_some hfind) rfl
    have hpre := List.find?_some hfind
    rw [List.isPrefixOf_iff_prefix] at hpre
    obtain ⟨tail, htail⟩ := hpre
    obtain ⟨value, rest, hread, hsplit, hm⟩ := comment_spec (cs.drop 1)
    rw [hw] at htail
    obtain ⟨rfl, rfl⟩ := List.cons.inj htail
    refine ⟨_, _, _, hread, ?_, hm⟩
    have same : tail = value ++ rest := hsplit
    simp [Kind.spelling, same]
  · rename_i w kind hproper hfind
    left
    have hpre := List.find?_some hfind
    rw [List.isPrefixOf_iff_prefix] at hpre
    obtain ⟨tail, htail⟩ := hpre
    have proper : kind ≠ .lineComment := by
      rintro rfl
      exact hproper rfl
    have hdrop : (c :: cs).drop w.length = tail := by simp [← htail]
    refine ⟨kind, w, tail, ?_, ?_, ?_⟩
    · simp [Kind.spelling, proper, hdrop]
    · simp [Kind.spelling, proper, htail]
    · refine .operator (List.mem_of_find?_eq_some hfind) proper ?_
      rw [htail]
      exact longest_of_find hfind
  · rename_i hfind
    right
    refine ⟨_, _, _, rfl, .symbol space digit word ?_⟩
    intro e he hpre
    have := List.find?_eq_none.1 hfind e he
    rw [List.isPrefixOf_iff_prefix] at this
    exact this hpre

/-- One reading step takes a token that could not be longer, or finds that there is none. -/
theorem read_spec {c : Char} (cs : List Char) (space : Text.isSpace c = false) :
    (∃ kind value rest, read c cs = .token kind value (kind.spelling value) rest ∧
      c :: cs = kind.spelling value ++ rest ∧ Munched kind value rest) ∨
    (∃ message lexeme rest, read c cs = .broken message lexeme rest ∧ Unreadable (c :: cs)) := by
  unfold read
  split
  · rename_i digit
    rcases number_spec cs digit with ⟨value, rest, hread, hsplit, hm⟩ | broken
    · exact .inl ⟨.number, value, rest, hread, hsplit, hm⟩
    · exact .inr broken
  · rename_i digit
    split
    · rename_i start
      obtain ⟨kind, value, rest, hread, hkind, hsplit, hm⟩ := word_spec cs start
      have same : kind.spelling value = value := by simp [Kind.spelling, hkind]
      exact .inl ⟨kind, value, rest, by rw [same, hread], by rw [same, hsplit], hm⟩
    · rename_i start
      exact operator_spec cs space (by simpa using digit) (by simpa using start)

end Lexeme

end LetWhile
