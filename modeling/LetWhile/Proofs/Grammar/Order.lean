import LetWhile.Proofs.Grammar.Segments
import LetWhile.Proofs.Layout
import LetWhile.Proofs.Munch

/-!
# Errors in the order of the text

The tokens of a text stand one behind the other, and so do the broken segments, each with its error
inside; so the errors of a text come in the order of their places. Main result:
`Parsed.errors_in_order`.
-/

namespace LetWhile

/-- Two known places, the first before the second. -/
def Loc.Precedes : Option Loc → Option Loc → Prop
  | some l, some m => l.line < m.line ∨ l.line = m.line ∧ l.col < m.col
  | _, _ => False

/-- The places stand one behind the other. -/
abbrev Loc.Ascend (places : List (Option Loc)) : Prop := places.Pairwise Loc.Precedes

theorem Loc.Precedes.trans {a b c : Option Loc} (h : Precedes a b) (h' : Precedes b c) :
    Precedes a c := by
  cases a <;> cases b <;> cases c <;> simp only [Precedes] at h h' ⊢
  omega

/-! ## Tokens -/

theorem Pos.precedes_next (p : Pos) (c : Char) (file : String) :
    Loc.Precedes (some (p.toLoc file)) (some ((p.next c).toLoc file)) := by
  unfold next
  split <;> simp [Loc.Precedes, toLoc]

theorem Pos.precedes_after (p : Pos) {cs : List Char} (nonempty : cs ≠ []) (file : String) :
    Loc.Precedes (some (p.toLoc file)) (some ((p.after cs).toLoc file)) := by
  induction cs generalizing p with
  | nil => exact absurd rfl nonempty
  | cons c cs ih =>
    have first := p.precedes_next c file
    by_cases none : cs = []
    · simpa [after, none] using first
    · exact first.trans (ih (p.next c) none)

/-- What stands further behind has a later place. -/
theorem Loc.behind_precedes (file : String) (before : List Char) {more : List Char}
    (nonempty : more ≠ []) :
    Precedes (some (behind file before)) (some (behind file (before ++ more))) := by
  rw [← toLoc_after, ← toLoc_after, Pos.after_append]
  exact Pos.precedes_after _ nonempty file

/-- The tokens of pieces, and a place behind them, stand one behind the other. -/
theorem Piece.Laid.ascend {file : String} {before rest : List Char} {pieces : List Piece}
    (h : Laid file before pieces rest) (blanks : List Char) :
    let places := (pieces.map fun p => p.token.loc) ++
      [some (Loc.behind file (before ++ pieces.flatMap chars ++ blanks))]
    Loc.Ascend places ∧ ∀ l ∈ places, ∃ more, l = some (Loc.behind file (before ++ more)) := by
  induction h with
  | @nil before rest =>
    exact ⟨by simp [Loc.Ascend], by simpa using ⟨blanks, rfl⟩⟩
  | @cons before rest p pieces blank place munched more ih =>
    obtain ⟨ascend, later⟩ := ih
    rw [List.append_assoc before] at ascend later
    refine ⟨?_, ?_⟩
    · simp only [List.map_cons, List.flatMap_cons, List.cons_append]
      refine List.pairwise_cons.2 ⟨fun l hl => ?_, by simpa [List.append_assoc] using ascend⟩
      obtain ⟨further, rfl⟩ := later l (by simpa [List.append_assoc] using hl)
      have split : before ++ p.chars ++ further =
          before ++ p.blanks ++ (p.token.spelling ++ further) := by
        simp [chars, List.append_assoc]
      rw [place, split]
      exact Loc.behind_precedes _ _ (by simp [Token.spelling, munched.ne_nil])
    · intro l hl
      simp only [List.map_cons, List.flatMap_cons, List.cons_append, List.mem_cons] at hl
      rcases hl with rfl | hl
      · exact ⟨p.blanks, place⟩
      · obtain ⟨further, rfl⟩ := later l (by simpa [List.append_assoc] using hl)
        exact ⟨p.chars ++ further, by rw [List.append_assoc]⟩

/-- The tokens of a text that is read to its end are ordinary ones with one last token behind them;
all have places in the text, one behind the other. -/
theorem Source.scan_ascends (file : String) (bytes : List UInt8) :
    ∃ tokens last after, (ofBytes file bytes false).scan = ⟨tokens, .last last after⟩ ∧
      (∀ t ∈ tokens, t.isOrdinary = true) ∧ (last.kind = .eof ∨ last.kind = .error) ∧
      Loc.Ascend ((tokens ++ [last]).map Token.loc) ∧
      ∀ t ∈ tokens ++ [last], ∃ l, t.loc = some l ∧ l.file = file := by
  have reads : (ofBytes file bytes false).ending ≠ .failure := by
    unfold ending
    split <;> simp [ofBytes]
  obtain ⟨pieces, blanks, rest, last, after, hscan, -, -, laid, hloc, hend⟩ :=
    Scan.scanFrom_accounts reads [] (ofBytes file bytes false).body
  have hlast : last.loc = some (Loc.behind file ([] ++ pieces.flatMap Piece.chars ++ blanks)) := hloc
  obtain ⟨ascend, placed⟩ := laid.ascend blanks
  have same : ((pieces.map Piece.token) ++ [last]).map Token.loc =
      (pieces.map fun p => p.token.loc) ++
        [some (Loc.behind file ([] ++ pieces.flatMap Piece.chars ++ blanks))] := by
    rw [List.map_append, List.map_map, ← hlast]
    rfl
  refine ⟨pieces.map Piece.token, last, after, hscan, ?_, ?_, same ▸ ascend, ?_⟩
  · intro t ht
    obtain ⟨p, hp, rfl⟩ := List.mem_map.1 ht
    obtain ⟨front, back, rfl⟩ := List.append_of_mem hp
    simpa [Token.isOrdinary] using laid.at.2.2.kind_ne
  · exact hend.imp And.left And.left
  · intro t ht
    obtain ⟨more, place⟩ := placed t.loc (same ▸ List.mem_map_of_mem ht)
    exact ⟨_, place, rfl⟩

/-! ## Errors -/

namespace Grammar

/-- Every error of a split stands at one of its tokens, or at the end if it was found there. -/
theorem Split.place {finish : Option Loc} {ts : List Token} {segments : List Segment}
    (h : Split finish ts segments) (known : finish.isSome) (located : ∀ t ∈ ts, t.loc.isSome)
    {e : SyntaxError} (he : e ∈ segments.filterMap Segment.error?) :
    (e.cause.atEnd = false → e.loc ∈ ts.map Token.loc) ∧ (e.cause.atEnd = true → e.loc = finish) := by
  obtain ⟨s, hs, herror⟩ := List.mem_filterMap.1 he
  cases s with
  | derived => cases herror
  | broken tokens e' =>
    cases herror
    obtain ⟨front, back, rfl⟩ := List.append_of_mem hs
    have part : tokens ⊆ ts := fun t ht => by simp [h.tokens_eq, Segment.tokens, ht]
    have broken := h.at
    exact ⟨fun inside => List.map_subset _ part (broken.inside inside fun t ht => located t (part ht)),
      fun atEnd => (broken.atEnd atEnd).2.1 known⟩

theorem Split.place_mem {finish : Option Loc} {ts : List Token} {segments : List Segment}
    (h : Split finish ts segments) (known : finish.isSome) (located : ∀ t ∈ ts, t.loc.isSome)
    {e : SyntaxError} (he : e ∈ segments.filterMap Segment.error?) :
    e.loc ∈ ts.map Token.loc ++ [finish] := by
  obtain ⟨inside, atEnd⟩ := h.place known located he
  cases hend : e.cause.atEnd with
  | false => exact List.mem_append_left _ (inside hend)
  | true => simp [atEnd hend]

/-- The errors of broken segments come in the order of the segments. -/
theorem Split.ascend {finish : Option Loc} {ts : List Token} {segments : List Segment}
    (h : Split finish ts segments) (known : finish.isSome) (located : ∀ t ∈ ts, t.loc.isSome)
    (ascend : Loc.Ascend (ts.map Token.loc ++ [finish])) :
    Loc.Ascend ((segments.filterMap Segment.error?).map SyntaxError.loc) := by
  induction h with
  | nil => exact .nil
  | derived d more ih =>
    rw [List.map_append, List.append_assoc] at ascend
    simpa [List.filterMap_cons, Segment.error?] using
      ih (fun t ht => located t (List.mem_append_right _ ht)) (List.pairwise_append.1 ascend).2.1
  | @broken tokens ts e segments broken more ih =>
    rw [List.map_append, List.append_assoc] at ascend
    obtain ⟨-, behind, across⟩ := List.pairwise_append.1 ascend
    have located' : ∀ t ∈ ts, t.loc.isSome := fun t ht => located t (List.mem_append_right _ ht)
    rw [List.filterMap_cons, Segment.error?, List.map_cons]
    refine List.pairwise_cons.2 ⟨?_, ih located' behind⟩
    intro l hl
    obtain ⟨e', he', rfl⟩ := List.mem_map.1 hl
    cases hend : e.cause.atEnd with
    | false =>
      exact across _ (broken.inside hend fun t ht => located t (List.mem_append_left _ ht)) _
        (more.place_mem known located' he')
    | true =>
      -- An error at the end leaves nothing behind it.
      have none := (broken.atEnd hend).1
      rw [none] at more
      rw [more.eq_nil] at he'
      cases he'

/-- The errors before the end stand before its place. -/
theorem Split.ascend_end {finish : Option Loc} {ts : List Token} {segments : List Segment}
    (h : Split finish ts segments) (known : finish.isSome) (located : ∀ t ∈ ts, t.loc.isSome)
    (ascend : Loc.Ascend (ts.map Token.loc ++ [finish])) {early late : List SyntaxError}
    (all : segments.filterMap Segment.error? = early ++ late)
    (inside : ∀ e ∈ early, e.cause.atEnd = false) :
    Loc.Ascend (early.map SyntaxError.loc ++ [finish]) := by
  have errors := h.ascend known located ascend
  rw [all, List.map_append] at errors
  refine List.pairwise_append.2 ⟨(List.pairwise_append.1 errors).1, by simp, ?_⟩
  intro l hl m hm
  obtain ⟨e, he, rfl⟩ := List.mem_map.1 hl
  have place := (h.place known located (all ▸ List.mem_append_left late he)).1 (inside e he)
  exact (List.pairwise_append.1 ascend).2.2 _ place m hm

end Grammar

namespace Parsed

open Grammar

/-- The errors of tokens that stand one behind the other. -/
theorem ofTokens_ascend {tokens : List Token} {last : Token}
    (ordinary : ∀ t ∈ tokens, t.isOrdinary = true) (kind : last.kind = .eof ∨ last.kind = .error)
    (located : ∀ t ∈ tokens ++ [last], t.loc.isSome)
    (ascend : Loc.Ascend ((tokens ++ [last]).map Token.loc)) :
    let parsed := ofTokens (tokens ++ [last])
    (∀ e ∈ parsed.errors, e.loc ∈ (tokens ++ [last]).map Token.loc) ∧
    (Loc.Ascend (parsed.errors.map SyntaxError.loc) ∨
      last.kind = .error ∧ ∃ early e, parsed.errors = early ++ [⟨last.loc, .lexical last.text⟩, e] ∧
        e.isLexical = false ∧ e.loc = last.loc ∧
        Loc.Ascend (early.map SyntaxError.loc ++ [last.loc])) ∧
    Loc.Ascend (parsed.parserErrors.map SyntaxError.loc) := by
  intro parsed
  have stops : last.isOrdinary = false := by rcases kind with h | h <;> simp [Token.isOrdinary, h]
  have known : last.loc.isSome := located last (by simp)
  obtain ⟨early, late, hparsed, all, before, behind⟩ := ofTokens_report (tokens ++ [last])
  obtain ⟨segments, split, -, herrors⟩ := ofFeed_split _ (Feed.ordinary_ofStream (tokens ++ [last]))
  have parser := parserErrors_ofTokens (tokens ++ [last])
  rw [herrors] at parser all
  rw [Feed.ofStream, Reader.pending_append ordinary stops, Reader.ending_append ordinary stops]
    at split
  rw [Reader.ending_append ordinary stops] at hparsed
  have seen : List.Sublist ((tokens.filter fun t => !t.isComment).map Token.loc ++ [last.loc])
      ((tokens ++ [last]).map Token.loc) := by
    rw [List.map_append]
    exact (List.filter_sublist.map _).append_right _
  have located' : ∀ t ∈ tokens.filter fun t => !t.isComment, t.loc.isSome :=
    fun t ht => located t (List.mem_append_left _ (List.mem_filter.1 ht).1)
  have ascend' := ascend.sublist seen
  have parserAscend := split.ascend known located' ascend'
  have places : ∀ e ∈ early ++ late, e.loc ∈ (tokens ++ [last]).map Token.loc := fun e he =>
    seen.subset (split.place_mem known located' (all ▸ he))
  have earlyAscend := split.ascend_end known located' ascend' all before
  refine ⟨?_, ?_, by rwa [← parser] at parserAscend⟩
  · intro e he
    simp only [parsed, hparsed, List.append_assoc, List.mem_append] at he
    rcases he with he | he | he
    · exact places e (List.mem_append_left _ he)
    · split at he
      · cases List.mem_singleton.1 he
        simp
      · cases he
    · exact places e (List.mem_append_right _ he)
  · by_cases error : last.kind = .error
    · rw [if_pos error] at hparsed
      rcases behind with rfl | ⟨e, rfl, atEnd⟩
      · exact .inl (by simpa [parsed, hparsed] using earlyAscend)
      · refine .inr ⟨error, early, e, by simp [parsed, hparsed], ?_, ?_, earlyAscend⟩
        · exact split.syntactic e (by simp [all])
        · exact (split.place known located' (by simp [all])).2 atEnd
    · rw [if_neg error, List.append_nil] at hparsed
      exact .inl (by simpa [parsed, hparsed, ← all] using parserAscend)

/-- **Errors come in the order of the text.** Every error of a text has a place in it. The places
come one behind the other, but for one exception: behind the report that the scanner stopped, the
parser may have one last error at the same place. The parser has no two errors at one place. -/
theorem errors_in_order (file : String) (bytes : List UInt8) :
    let source := Source.ofBytes file bytes false
    let errors := (ofSource source).errors
    (∀ e ∈ errors, ∃ l, e.loc = some l ∧ l.file = file) ∧
    (Loc.Ascend (errors.map SyntaxError.loc) ∨
      ∃ early last after e, source.scan.stop = .last last after ∧ last.kind = .error ∧
        errors = early ++ [⟨last.loc, .lexical last.text⟩, e] ∧ e.isLexical = false ∧
        e.loc = last.loc ∧ Loc.Ascend (early.map SyntaxError.loc ++ [last.loc])) ∧
    Loc.Ascend ((ofSource source).parserErrors.map SyntaxError.loc) := by
  intro source errors
  obtain ⟨tokens, last, after, hscan, ordinary, kind, ascend, placed⟩ :=
    Source.scan_ascends file bytes
  have hparsed : ofSource source = ofTokens (tokens ++ [last]) := by
    rw [ofSource, hscan]
    rfl
  obtain ⟨inside, order, parser⟩ := ofTokens_ascend ordinary kind
    (fun t ht => by obtain ⟨l, hl, -⟩ := placed t ht; simp [hl]) ascend
  rw [← hparsed] at inside order parser
  refine ⟨fun e he => ?_, order.imp_right ?_, parser⟩
  · obtain ⟨t, ht, place⟩ := List.mem_map.1 (inside e he)
    rw [← place]
    exact placed t ht
  · rintro ⟨error, early, e, herrors, syntactic, place, rest⟩
    exact ⟨early, last, after, e, by rw [hscan], error, herrors, syntactic, place, rest⟩

/-- No token starts with the last character: the scanner stops there, and the parser does not find
the name that it expects. -/
theorem errors_in_order_unreadable :
    ∃ early place text e,
      (ofSource (.ofBytes "a.let" "let @".toUTF8.data.toList false)).errors =
        early ++ [⟨place, .lexical text⟩, e] ∧
      e.isLexical = false ∧ e.loc = place ∧
      Loc.Ascend (early.map SyntaxError.loc ++ [place]) := by
  obtain ⟨-, order, -⟩ := errors_in_order "a.let" "let @".toUTF8.data.toList
  have places : (ofSource (.ofBytes "a.let" "let @".toUTF8.data.toList false)).errors.map
      SyntaxError.loc = [some ⟨"a.let", 1, 5⟩, some ⟨"a.let", 1, 5⟩] := by decide +kernel
  rcases order with ascend | ⟨early, last, -, e, -, -, all, other, same, ascend⟩
  · rw [places] at ascend
    simp [Loc.Ascend, Loc.Precedes] at ascend
  · exact ⟨early, last.loc, last.text, e, all, other, same, ascend⟩

end Parsed

end LetWhile
