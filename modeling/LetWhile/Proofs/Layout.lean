import LetWhile.Proofs.Lexeme

/-!
# Words one behind the other

A text of words, none of which could be longer before what follows it, is scanned as these words
(`Source.scan_written`); words with blanks between them are such a text (`Layout.written`). What
carries this is the converse of `Lexeme.read_spec`: a token that could not be longer is what a
reading step takes (`Lexeme.read_of_munched`).
-/

namespace LetWhile

namespace Text

theorem mem_of_inRanges {ranges : List (Nat × Nat)} {n : Nat} (h : inRanges ranges n = true) :
    n ∈ ranges.flatMap fun r => List.range' r.1 (r.2 + 1 - r.1) := by
  fun_induction inRanges ranges n with
  | case1 => cases h
  | case2 => cases h
  | case3 n low high rest below le =>
    refine List.mem_flatMap.2 ⟨_, List.mem_cons_self, List.mem_range'_1.2 ?_⟩
    dsimp only
    omega
  | case4 n low high rest below above ih => exact List.mem_append.2 (.inr (ih h))

theorem toNat_of_isAsciiDigit {c : Char} (h : isAsciiDigit c = true) :
    48 ≤ c.toNat ∧ c.toNat ≤ 57 := by
  simpa [isAsciiDigit, Char.le_def, UInt32.le_iff_toNat_le] using h

end Text

namespace Lexeme

open Token

/-! ## No two classes of characters meet -/

theorem inWord_of_isSpace {c : Char} (h : Text.isSpace c = true) : inWord c = false := by
  have apart : ∀ n ∈ Text.spaceRanges.flatMap fun r => List.range' r.1 (r.2 + 1 - r.1),
      Text.inRanges Text.letterRanges n = false ∧ Text.inRanges Text.digitRanges n = false ∧
      n ≠ '_'.toNat := by decide +kernel
  obtain ⟨letter, digit, line⟩ := apart _ (Text.mem_of_inRanges h)
  have other : c ≠ '_' := fun eq => line (by rw [eq])
  simp [inWord, Text.isLetter, Text.isDigit, letter, digit, other]

theorem inWord_of_isAsciiDigit {c : Char} (h : Text.isAsciiDigit c = true) : inWord c = true := by
  have ⟨low, high⟩ := Text.toNat_of_isAsciiDigit h
  have digit : Text.isDigit c = true := by
    simp only [Text.isDigit, Text.digitRanges, Text.inRanges]
    rw [if_neg (by omega), if_pos high]
  simp [inWord, digit]

theorem isAsciiDigit_of_startsWord {c : Char} (h : startsWord c = true) :
    Text.isAsciiDigit c = false := by
  have apart : ∀ n ∈ List.range' 48 10, Text.inRanges Text.letterRanges n = false := by decide
  rw [Bool.eq_false_iff]
  intro digit
  have ⟨low, high⟩ := Text.toNat_of_isAsciiDigit digit
  have letter : Text.isLetter c = false := apart _ (List.mem_range'_1.2 (by omega))
  have line : c = '_' := by simpa [startsWord, letter] using h
  rw [line] at digit
  cases digit

theorem isSpace_of_inWord {c : Char} (h : inWord c = true) : Text.isSpace c = false := by
  rw [Bool.eq_false_iff]
  intro space
  rw [inWord_of_isSpace space] at h
  cases h

/-! ## A reading step takes the longest token -/

theorem takeWhile_append_of_behind {p : Char → Bool} {cs rest : List Char}
    (all : ∀ c ∈ cs, p c = true) (behind : ∀ c ∈ rest.head?, p c = false) :
    (cs ++ rest).takeWhile p = cs := by
  rw [List.takeWhile_append_of_pos all]
  cases rest with
  | nil => simp
  | cons c rest => simp [behind c rfl]

theorem dropWhile_append_of_behind {p : Char → Bool} {cs rest : List Char}
    (all : ∀ c ∈ cs, p c = true) (behind : ∀ c ∈ rest.head?, p c = false) :
    (cs ++ rest).dropWhile p = rest := by
  rw [List.dropWhile_append_of_pos all]
  cases rest with
  | nil => simp
  | cons c rest => simp [behind c rfl]

theorem number_whole {ds rest : List Char} (digits : ∀ d ∈ ds, Text.isAsciiDigit d = true)
    (behind : ∀ c ∈ rest.head?, Text.isAsciiDigit c = false ∧ c ≠ '.') :
    number (ds ++ rest) = .token .number ds ds rest := by
  have digit : ∀ c ∈ rest.head?, Text.isAsciiDigit c = false := fun c h => (behind c h).1
  unfold number
  rw [takeWhile_append_of_behind digits digit, dropWhile_append_of_behind digits digit]
  split
  · rename_i tail
    exact absurd rfl (behind '.' rfl).2
  · rfl

theorem number_decimal {ds ps rest : List Char} (digits : ∀ d ∈ ds, Text.isAsciiDigit d = true)
    (places : ps ≠ []) (decimals : ∀ d ∈ ps, Text.isAsciiDigit d = true)
    (behind : ∀ c ∈ rest.head?, Text.isAsciiDigit c = false) :
    number (ds ++ '.' :: ps ++ rest) =
      .token .number (ds ++ '.' :: ps) (ds ++ '.' :: ps) rest := by
  have point : ∀ c ∈ ('.' :: (ps ++ rest)).head?, Text.isAsciiDigit c = false := by
    intro c there
    cases there
    decide
  unfold number
  rw [List.append_assoc, List.cons_append, takeWhile_append_of_behind digits point,
    dropWhile_append_of_behind digits point]
  split
  · rename_i tail same
    cases same
    rw [takeWhile_append_of_behind decimals behind, dropWhile_append_of_behind decimals behind]
    exact if_neg (by simpa using places)
  · rename_i other
    exact absurd rfl (other _)

theorem read_word {c : Char} {cs w rest : List Char} (text : c :: cs = w ++ rest)
    (first : startsWord c = true) (all : ∀ c ∈ w, inWord c = true)
    (behind : ∀ c ∈ rest.head?, inWord c = false) :
    read c cs = .token ((keywords.lookup w).getD .identifier) w w rest := by
  unfold read word
  rw [if_neg (by simp [isAsciiDigit_of_startsWord first]), if_pos first, text,
    takeWhile_append_of_behind all behind, dropWhile_append_of_behind all behind]

/-- The longest operator that fits is found, and it stands in the table once. -/
theorem find_of_longest {w rest : List Char} {kind : Token.Kind} (entry : (w, kind) ∈ operators)
    (longest : ∀ e ∈ operators, e.1 <+: w ++ rest → e.1.length ≤ w.length) :
    operators.find? (·.1.isPrefixOf (w ++ rest)) = some (w, kind) := by
  have fits : w <+: w ++ rest := List.prefix_append w rest
  have unique : ∀ e ∈ operators, ∀ e' ∈ operators, e.1 = e'.1 → e = e' := by decide
  cases hfind : operators.find? (·.1.isPrefixOf (w ++ rest)) with
  | none =>
    have := List.find?_eq_none.1 hfind _ entry
    rw [List.isPrefixOf_iff_prefix] at this
    exact absurd fits this
  | some e =>
    have hmem := List.mem_of_find?_eq_some hfind
    have hpre := List.find?_some hfind
    rw [List.isPrefixOf_iff_prefix] at hpre
    have le := longest_of_find hfind _ entry fits
    have same : e.1 = w :=
      (List.prefix_of_prefix_length_le hpre fits (longest e hmem hpre)).eq_of_length_le le
    rw [unique e hmem _ entry same]

theorem operator_of_longest {c : Char} {cs w rest : List Char} {kind : Token.Kind}
    (text : c :: cs = w ++ rest) (entry : (w, kind) ∈ operators) (proper : kind ≠ .lineComment)
    (longest : ∀ e ∈ operators, e.1 <+: w ++ rest → e.1.length ≤ w.length) :
    operator c cs = .token kind w w rest := by
  unfold operator
  rw [text, find_of_longest entry longest]
  split
  · rename_i heq
    cases heq
    exact absurd rfl proper
  · rename_i heq
    cases heq
    rw [List.drop_left]
  · rename_i heq
    cases heq

theorem comment_of_behind {value rest : List Char} (line : '\n' ∉ value)
    (behind : ∀ c ∈ rest.head?, c = '\n') :
    operator '/' ('/' :: (value ++ rest)) =
      .token .lineComment value ('/' :: '/' :: value) rest := by
  have other : ∀ c ∈ value, decide (c ≠ '\n') = true := by
    intro c there
    exact decide_eq_true fun eq => line (eq ▸ there)
  have stops : ∀ c ∈ rest.head?, decide (c ≠ '\n') = false := by
    intro c there
    simp [behind c there]
  have read : operator '/' ('/' :: (value ++ rest)) = comment (value ++ rest) := rfl
  rw [read, comment, takeWhile_append_of_behind other stops, dropWhile_append_of_behind other stops]

theorem lookup_of_free {w : List Char} (free : w ∉ keywords.map Prod.fst) :
    keywords.lookup w = none := by
  rw [List.lookup_eq_none_iff]
  intro e entry
  have other : w ≠ e.1 := by
    rintro rfl
    exact free (List.mem_map_of_mem entry)
  simpa using other

theorem inWord_of_keyword {w : List Char} {kind : Token.Kind} (entry : (w, kind) ∈ keywords) :
    ∀ c ∈ w, inWord c = true := by
  have table : ∀ e ∈ keywords, e.1.all inWord = true := by decide
  exact List.all_eq_true.1 (table _ entry)

/-- A token that could not be longer is the one that is read. -/
theorem read_of_munched {kind : Token.Kind} {value rest : List Char} (h : Munched kind value rest)
    {c : Char} {cs : List Char} (text : c :: cs = kind.spelling value ++ rest) :
    read c cs = .token kind value (kind.spelling value) rest := by
  cases h with
  | whole nonempty digits behind =>
    obtain ⟨d, ds, rfl⟩ := List.exists_cons_of_ne_nil nonempty
    cases text
    rw [read, if_pos (digits c List.mem_cons_self)]
    exact number_whole digits behind
  | decimal nonempty digits places decimals behind =>
    obtain ⟨d, ds, rfl⟩ := List.exists_cons_of_ne_nil nonempty
    cases text
    rw [read, if_pos (digits c List.mem_cons_self)]
    exact number_decimal digits places decimals behind
  | keyword entry behind =>
    have table : ∀ e ∈ keywords, e.2.spelling e.1 = e.1 ∧ keywords.lookup e.1 = some e.2 ∧
        e.1.head?.map startsWord = some true := by decide
    obtain ⟨spelling, found, start⟩ := table _ entry
    obtain ⟨d, head, first⟩ := Option.map_eq_some_iff.1 start
    obtain ⟨ds, rfl⟩ := List.head?_eq_some_iff.1 head
    rw [spelling] at text ⊢
    cases text
    rw [read_word rfl first (inWord_of_keyword entry) behind, found]
    rfl
  | @identifier d ds _ first others free behind =>
    have all : ∀ x ∈ d :: ds, inWord x = true := by
      rintro x (_ | ⟨_, there⟩)
      · exact inWord_of_startsWord first
      · exact others x there
    cases text
    rw [read_word (w := c :: ds) rfl first all behind, lookup_of_free free]
    rfl
  | operator entry proper longest =>
    have table : ∀ e ∈ operators,
        e.1.head?.map (fun c => Text.isAsciiDigit c || startsWord c) = some false := by
      decide
    obtain ⟨d, head, neither⟩ := Option.map_eq_some_iff.1 (table _ entry)
    obtain ⟨ds, rfl⟩ := List.head?_eq_some_iff.1 head
    rw [Kind.spelling, if_neg proper] at text ⊢
    obtain ⟨rfl, -⟩ := List.cons.inj text
    rw [Bool.or_eq_false_iff] at neither
    rw [read, if_neg (by simp [neither.1]), if_neg (by simp [neither.2])]
    exact operator_of_longest text entry proper longest
  | comment line behind =>
    cases text
    exact comment_of_behind line behind

end Lexeme

namespace Token

theorem Munched.ne_nil {kind : Kind} {value rest : List Char} (h : Munched kind value rest) :
    kind.spelling value ≠ [] := by
  cases h with
  | whole nonempty => exact nonempty
  | decimal nonempty => simp [Kind.spelling]
  | keyword entry =>
    have table : ∀ e ∈ Lexeme.keywords, e.2.spelling e.1 ≠ [] := by decide
    exact table _ entry
  | identifier => simp [Kind.spelling]
  | operator entry =>
    have table : ∀ e ∈ Lexeme.operators, e.2.spelling e.1 ≠ [] := by decide
    exact table _ entry
  | comment => simp [Kind.spelling]

theorem Munched.kind_ne {kind : Kind} {value rest : List Char} (h : Munched kind value rest) :
    kind ≠ .error ∧ kind ≠ .eof := by
  cases h with
  | whole | decimal | identifier | comment => exact ⟨nofun, nofun⟩
  | keyword entry =>
    have table : ∀ e ∈ Lexeme.keywords, e.2 ≠ .error ∧ e.2 ≠ .eof := by decide
    exact table _ entry
  | operator entry =>
    have table : ∀ e ∈ Lexeme.operators, e.2 ≠ .error ∧ e.2 ≠ .eof := by decide
    exact table _ entry

/-- A character that can stand in a word or an operator: no blank, and not the end mark. -/
def isSolid (c : Char) : Bool := !Text.isSpace c && c != Source.endMark

theorem isSolid_of_inWord {c : Char} (h : Lexeme.inWord c = true) : isSolid c = true := by
  have other : c ≠ Source.endMark := by
    rintro rfl
    cases h
  simp [isSolid, Lexeme.isSpace_of_inWord h, other]

theorem isSolid_of_operator {w : List Char} {kind : Kind} (entry : (w, kind) ∈ Lexeme.operators) :
    ∀ c ∈ w, isSolid c = true := by
  have table : ∀ e ∈ Lexeme.operators, e.1.all isSolid = true := by decide
  exact List.all_eq_true.1 (table _ entry)

theorem Munched.solid {kind : Kind} {value rest : List Char} (h : Munched kind value rest)
    (proper : kind ≠ .lineComment) : ∀ c ∈ value, isSolid c = true := by
  intro c there
  cases h with
  | whole nonempty digits => exact isSolid_of_inWord (Lexeme.inWord_of_isAsciiDigit (digits c there))
  | decimal nonempty digits places decimals =>
    rcases List.mem_append.1 there with there | there
    · exact isSolid_of_inWord (Lexeme.inWord_of_isAsciiDigit (digits c there))
    · rcases List.mem_cons.1 there with rfl | there
      · rfl
      · exact isSolid_of_inWord (Lexeme.inWord_of_isAsciiDigit (decimals c there))
  | keyword entry => exact isSolid_of_inWord (Lexeme.inWord_of_keyword entry c there)
  | identifier first others =>
    rcases List.mem_cons.1 there with rfl | there
    · exact isSolid_of_inWord (Lexeme.inWord_of_startsWord first)
    · exact isSolid_of_inWord (others c there)
  | operator entry => exact isSolid_of_operator entry c there
  | comment => exact absurd rfl proper

/-- A token starts with no blank. -/
theorem Munched.exists_cons {kind : Kind} {value rest : List Char} (h : Munched kind value rest) :
    ∃ c cs, kind.spelling value = c :: cs ∧ Text.isSpace c = false := by
  obtain ⟨c, cs, spelled⟩ := List.exists_cons_of_ne_nil h.ne_nil
  refine ⟨c, cs, spelled, ?_⟩
  by_cases comment : kind = .lineComment
  · rw [Kind.spelling, if_pos comment] at spelled
    cases spelled
    decide
  · rw [Kind.spelling, if_neg comment] at spelled
    have solid := h.solid comment c (by simp [spelled])
    simp only [isSolid, Bool.and_eq_true, Bool.not_eq_true'] at solid
    exact solid.1

/-- A blank makes no token longer. -/
theorem Munched.before_blank {kind : Kind} {value rest : List Char} (h : Munched kind value [])
    (proper : kind ≠ .lineComment) (blank : ∀ c ∈ rest.head?, Text.isSpace c = true) :
    Munched kind value rest := by
  have word : ∀ c ∈ rest.head?, Lexeme.inWord c = false :=
    fun c there => Lexeme.inWord_of_isSpace (blank c there)
  have digit : ∀ c ∈ rest.head?, Text.isAsciiDigit c = false := by
    intro c there
    rw [Bool.eq_false_iff]
    intro digit
    cases (Lexeme.inWord_of_isAsciiDigit digit).symm.trans (word c there)
  cases h with
  | whole nonempty digits =>
    refine .whole nonempty digits fun c there => ⟨digit c there, ?_⟩
    rintro rfl
    cases blank _ there
  | decimal nonempty digits places decimals => exact .decimal nonempty digits places decimals digit
  | keyword entry => exact .keyword entry word
  | identifier first others free => exact .identifier first others free word
  | operator entry =>
    refine .operator entry proper ?_
    rintro e there ⟨tail, fits⟩
    rcases List.append_eq_append_iff.1 fits with ⟨front, within, -⟩ | ⟨more, longer, behind⟩
    · simp [within]
    · -- A longer operator would hold the blank.
      cases more with
      | nil => simp [longer]
      | cons c more =>
        have space := blank c (by simp [behind])
        have solid := isSolid_of_operator there c (by simp [longer])
        simp [isSolid, space] at solid
  | comment => exact absurd rfl proper

/-- What a token is without its place. -/
structure Word where
  kind : Kind
  text : String
  deriving DecidableEq

def word (t : Token) : Word := ⟨t.kind, t.text⟩

/-- The text is a token of the kind, and no comment. -/
structure Word.Proper (w : Word) : Prop where
  munched : Munched w.kind w.text.toList []
  proper : w.kind ≠ .lineComment

namespace Word.Proper

variable {w : Word}

theorem spelling_eq (h : w.Proper) : w.kind.spelling w.text.toList = w.text.toList := by
  rw [Kind.spelling, if_neg h.proper]

end Word.Proper

theorem Word.Proper.ordinary {t : Token} (h : t.word.Proper) :
    t.isOrdinary = true ∧ t.isComment = false := by
  have error : t.kind ≠ .error := h.munched.kind_ne.1
  have eof : t.kind ≠ .eof := h.munched.kind_ne.2
  have comment : t.kind ≠ .lineComment := h.proper
  simp [isOrdinary, isComment, error, eof, comment]

end Token

/-- The words one behind the other, each as long as it could be before what follows it. Blanks may
stand before each and behind the last. -/
inductive Written : List Token.Word → List Char → Prop where
  | nil {gap : List Char} (blank : ∀ c ∈ gap, Text.isSpace c = true) : Written [] gap
  | cons {gap cs : List Char} {w : Token.Word} {ws : List Token.Word}
      (blank : ∀ c ∈ gap, Text.isSpace c = true) (munched : Token.Munched w.kind w.text.toList cs)
      (more : Written ws cs) : Written (w :: ws) (gap ++ (w.kind.spelling w.text.toList ++ cs))

/-- The words one behind the other with blanks between them; blanks may also stand before the first
and behind the last. -/
inductive Layout : List Token.Word → List Char → Prop where
  | nil {gap : List Char} (blank : ∀ c ∈ gap, Text.isSpace c = true) : Layout [] gap
  | cons {gap cs : List Char} {w : Token.Word} {ws : List Token.Word}
      (blank : ∀ c ∈ gap, Text.isSpace c = true) (apart : ∀ c ∈ cs.head?, Text.isSpace c = true)
      (more : Layout ws cs) : Layout (w :: ws) (gap ++ (w.text.toList ++ cs))

namespace Layout

/-- The words on one line, with one blank before each. -/
def line (ws : List Token.Word) : List Char := ws.flatMap fun w => ' ' :: w.text.toList

theorem of_line (ws : List Token.Word) : Layout ws (line ws) := by
  induction ws with
  | nil => exact .nil nofun
  | cons w ws ih =>
    have apart : ∀ c ∈ (line ws).head?, Text.isSpace c = true := by
      cases ws with
      | nil => nofun
      | cons w' ws =>
        intro c there
        cases there
        rfl
    exact .cons (List.forall_mem_singleton.2 rfl) apart ih

end Layout

namespace Scan

theorem scanFrom_blank (s : Source) (p : Pos) {gap : List Char} (cs : List Char)
    (blank : ∀ c ∈ gap, Text.isSpace c = true) :
    scanFrom s p (gap ++ cs) = scanFrom s (p.after gap) cs := by
  induction gap generalizing p with
  | nil => rfl
  | cons c gap ih =>
    rw [List.cons_append, scanFrom, if_pos (blank c List.mem_cons_self),
      ih _ fun d there => blank d (List.mem_cons_of_mem c there)]
    rfl

/-- A token that could not be longer is scanned, unless it is a comment in which reading fails. -/
theorem scanFrom_munched (s : Source) (p : Pos) {kind : Token.Kind} {value rest : List Char}
    (munched : Token.Munched kind value rest)
    (closes : ¬ (kind = .lineComment ∧ rest = [] ∧ s.ending = .failure)) :
    scanFrom s p (kind.spelling value ++ rest) =
      ⟨⟨kind, String.ofList value, some (p.toLoc s.file)⟩ ::
          (scanFrom s (p.after (kind.spelling value)) rest).tokens,
        (scanFrom s (p.after (kind.spelling value)) rest).stop⟩ := by
  obtain ⟨c, more, text, space⟩ := munched.exists_cons
  have split : c :: (more ++ rest) = kind.spelling value ++ rest := by rw [text, List.cons_append]
  have read := Lexeme.read_of_munched munched split
  rw [← split, scanFrom, if_neg (by simp [space]), read]
  simp only [closes, if_false]

/-- A text that can be read to its end stops with the end. -/
theorem finish_of_reads {s : Source} (reads : s.ending ≠ .failure) (p : Pos) :
    ∃ last after, finish s p = ⟨[], .last last after⟩ ∧ last.kind = .eof := by
  unfold finish
  cases ending : s.ending with
  | endOfFile => exact ⟨_, _, rfl, rfl⟩
  | mark => exact ⟨_, _, rfl, rfl⟩
  | failure => exact absurd ending reads

/-- Words that could not be longer are scanned, and the end follows. -/
theorem scanFrom_written {s : Source} (reads : s.ending ≠ .failure) {ws : List Token.Word}
    {cs : List Char} (written : Written ws cs) (p : Pos) :
    ∃ ts last after, scanFrom s p cs = ⟨ts, .last last after⟩ ∧ ts.map Token.word = ws ∧
      last.kind = .eof := by
  induction written generalizing p with
  | @nil gap blank =>
    have skipped := scanFrom_blank s p [] blank
    rw [List.append_nil, scanFrom] at skipped
    obtain ⟨last, after, finished, atEnd⟩ := finish_of_reads reads (p.after gap)
    exact ⟨[], last, after, skipped.trans finished, rfl, atEnd⟩
  | @cons gap cs w ws blank munched more ih =>
    obtain ⟨ts, last, after, scanned, words, atEnd⟩ :=
      ih ((p.after gap).after (w.kind.spelling w.text.toList))
    rw [scanFrom_blank s p _ blank, scanFrom_munched s _ munched fun h => reads h.2.2, scanned,
      String.ofList_toList]
    exact ⟨_, last, after, rfl, by rw [List.map_cons, words]; rfl, atEnd⟩

end Scan

/-- Blanks between the words keep each of them apart. -/
theorem Layout.written {ws : List Token.Word} {cs : List Char} (laid : Layout ws cs)
    (proper : ∀ w ∈ ws, w.Proper) : Written ws cs := by
  induction laid with
  | nil blank => exact .nil blank
  | @cons gap cs w ws blank apart more ih =>
    have first := proper w List.mem_cons_self
    have written := ih fun w there => proper w (List.mem_cons_of_mem _ there)
    rw [← first.spelling_eq]
    exact .cons blank (first.munched.before_blank first.proper apart) written

theorem Written.endMark_not_mem {ws : List Token.Word} {cs : List Char} (written : Written ws cs)
    (proper : ∀ w ∈ ws, w.Proper) : Source.endMark ∉ cs := by
  have space : ∀ {gap : List Char}, (∀ c ∈ gap, Text.isSpace c = true) → Source.endMark ∉ gap := by
    intro gap blank there
    cases blank _ there
  induction written with
  | nil blank => exact space blank
  | @cons gap cs w ws blank munched more ih =>
    have first := proper w List.mem_cons_self
    rw [first.spelling_eq, List.mem_append, List.mem_append]
    rintro (there | there | there)
    · exact space blank there
    · cases munched.solid first.proper _ there
    · exact ih (fun w there => proper w (List.mem_cons_of_mem _ there)) there

namespace Source

theorem body_eq_chars {s : Source} (free : endMark ∉ s.chars) : s.body = s.chars := by
  rw [body, List.takeWhile_eq_self_iff]
  intro c there
  exact decide_eq_true fun eq => free (eq ▸ there)

theorem ending_ne_failure {s : Source} (reads : s.fails = false) : s.ending ≠ .failure := by
  unfold ending
  split <;> simp [reads]

/-- A text of words that could not be longer is scanned as these words. -/
theorem scan_written (s : Source) (reads : s.fails = false) {ws : List Token.Word}
    (written : Written ws s.chars) (proper : ∀ w ∈ ws, w.Proper) :
    ∃ ts last after, s.scan = ⟨ts, .last last after⟩ ∧ ts.map Token.word = ws ∧
      last.kind = .eof := by
  rw [scan, body_eq_chars (written.endMark_not_mem proper)]
  exact Scan.scanFrom_written (ending_ne_failure reads) written {}

end Source

end LetWhile
