import LetWhile.Proofs.Grammar.Program
import LetWhile.Proofs.Grammar.Reader
import LetWhile.Proofs.Grammar.Spans

/-!
# Every token is accounted for

Whatever the tokens are, parsing splits them into segments that stand one behind the other: derived
statements, which are the statements of the program, and broken ones, each of which was given up
with one error. Main result: `Parsed.accounts_for_every_token`.
-/

namespace LetWhile

/-- Reported by the scanner, not by the parser. -/
def SyntaxError.isLexical (e : SyntaxError) : Bool :=
  match e.cause with
  | .lexical _ => true
  | _ => false

theorem SyntaxError.isLexical_of_ne {e : SyntaxError} (h : ∀ message, e.cause ≠ .lexical message) :
    e.isLexical = false := by
  unfold isLexical
  split
  · rename_i message heq
    exact absurd heq (h message)
  · rfl

namespace Grammar

/-- A part of the tokens: a statement with its derivation, or tokens that were given up with an
error. -/
inductive Segment where
  | derived (sentence : Sentence)
  | broken (tokens : List Token) (error : SyntaxError)

namespace Segment

def tokens : Segment → List Token
  | derived sentence => sentence.tokens
  | broken tokens _ => tokens

def statement? : Segment → Option Stmt
  | derived sentence => some sentence.tree
  | broken _ _ => none

def error? : Segment → Option SyntaxError
  | derived _ => none
  | broken _ error => some error

end Segment

/-- A token at which the parser goes on after an error. -/
def Resumes (t : Token) : Prop := t.kind = .semicolon ∨ t.kind = .closeCurly

/-- Tokens that are given up with the error `e`, where `rest` is behind them and `finish` is the
place of the end. -/
structure Broken (finish : Option Loc) (tokens : List Token) (e : SyntaxError) (rest : List Token) :
    Prop where
  nonempty : tokens ≠ []
  /-- They stop behind the first token to go on at, or at the end. -/
  stops : rest = [] ∨ ∃ front t, tokens = front ++ [t] ∧ Resumes t
  /-- They do not start with a statement of the grammar, unless an `else` follows it. -/
  underived : ∀ (d : Sentence) more, tokens ++ rest = d.tokens ++ more → ¬ NoElse more
  syntactic : e.isLexical = false
  /-- An error before the end stands at one of the tokens. -/
  inside : e.cause.atEnd = false → (∀ t ∈ tokens, t.loc.isSome) → e.loc ∈ tokens.map Token.loc
  /-- An error at the end stands there, or at the last token if the end has no place. -/
  atEnd : e.cause.atEnd = true → rest = [] ∧ (finish.isSome → e.loc = finish) ∧
    (finish = none → (∀ t ∈ tokens, t.loc.isSome) → e.loc ∈ tokens.map Token.loc)

/-- If all its tokens have a place, the error stands at one of them or at the end behind them. -/
theorem Broken.place {finish : Option Loc} {tokens rest : List Token} {e : SyntaxError}
    (h : Broken finish tokens e rest) (located : ∀ t ∈ tokens, t.loc.isSome) :
    e.loc ∈ tokens.map Token.loc ∨ rest = [] ∧ finish.isSome ∧ e.loc = finish := by
  cases atEnd : e.cause.atEnd with
  | false => exact .inl (h.inside atEnd located)
  | true =>
    obtain ⟨none, known, unknown⟩ := h.atEnd atEnd
    cases finish with
    | none => exact .inl (unknown rfl located)
    | some l => exact .inr ⟨none, rfl, known rfl⟩

/-- Segments that stand one behind the other and make up the tokens. -/
inductive Split (finish : Option Loc) : List Token → List Segment → Prop where
  | nil : Split finish [] []
  | derived (d : Sentence) {ts : List Token} {segments : List Segment}
      (more : Split finish ts segments) : Split finish (d.tokens ++ ts) (.derived d :: segments)
  | broken {tokens ts : List Token} {e : SyntaxError} {segments : List Segment}
      (broken : Broken finish tokens e ts) (more : Split finish ts segments) :
      Split finish (tokens ++ ts) (.broken tokens e :: segments)

theorem Split.tokens_eq {finish : Option Loc} {ts : List Token} {segments : List Segment}
    (h : Split finish ts segments) : ts = segments.flatMap Segment.tokens := by
  induction h with
  | nil => rfl
  | derived d more ih => rw [List.flatMap_cons, ← ih]; rfl
  | broken broken more ih => rw [List.flatMap_cons, ← ih]; rfl

theorem Split.nonempty {finish : Option Loc} {ts : List Token} {segments : List Segment}
    (h : Split finish ts segments) : ∀ s ∈ segments, s.tokens ≠ [] := by
  induction h with
  | nil => simp
  | derived d more ih =>
    obtain ⟨t, ts, htokens, -⟩ := d.tokens_eq_cons
    simpa [Segment.tokens, htokens] using ih
  | broken broken more ih => simpa [Segment.tokens, broken.nonempty] using ih

theorem Split.eq_nil {finish : Option Loc} {segments : List Segment} (h : Split finish [] segments) :
    segments = [] := by
  refine List.eq_nil_iff_forall_not_mem.2 fun s hs => h.nonempty s hs ?_
  exact List.flatMap_eq_nil_iff.1 h.tokens_eq.symm s hs

theorem Split.syntactic {finish : Option Loc} {ts : List Token} {segments : List Segment}
    (h : Split finish ts segments) : ∀ e ∈ segments.filterMap Segment.error?, e.isLexical = false := by
  induction h with
  | nil => simp
  | derived d more ih => simpa [List.filterMap_cons, Segment.error?] using ih
  | broken broken more ih => simpa [Segment.error?, broken.syntactic] using ih

theorem Split.at {finish : Option Loc} {ts tokens : List Token} {e : SyntaxError}
    {front back : List Segment} (h : Split finish ts (front ++ .broken tokens e :: back)) :
    Broken finish tokens e (back.flatMap Segment.tokens) := by
  induction front generalizing ts with
  | nil =>
    cases h with
    | broken broken more => rwa [more.tokens_eq] at broken
  | cons s front ih =>
    cases h with
    | derived d more => exact ih more
    | broken broken more => exact ih more

end Grammar

namespace Feed

open Grammar

theorem passes_skip (f : Feed) :
    ∃ taken, f.Passes taken f.skip ∧ (∀ t ∈ f.tokens.head?, t ∈ taken) ∧
      (f.skip.tokens = [] ∨ ∃ front t, taken = front ++ [t] ∧ Resumes t) := by
  generalize hn : f.size = n
  induction n using Nat.strongRecOn generalizing f with
  | ind n ih =>
    subst hn
    cases hts : f.tokens with
    | nil =>
      rw [skip_of_nil hts]
      exact ⟨[], .refl f, nofun, .inl hts⟩
    | cons t ts =>
      rw [skip_of_cons hts]
      have passes := passes_advance hts
      split
      · rename_i resumes
        exact ⟨[t], passes, by simp, .inr ⟨[], t, rfl, resumes⟩⟩
      · have lt : f.advance.size < f.size := by
          have := congrArg List.length passes.tokens
          simp only [List.length_append, List.length_singleton] at this
          simp only [size]
          omega
        obtain ⟨taken, more, -, stops⟩ := ih _ lt f.advance rfl
        refine ⟨t :: taken, passes.trans more, by simp, stops.imp_right ?_⟩
        rintro ⟨front, u, rfl, resumes⟩
        exact ⟨t :: front, u, rfl, resumes⟩

/-- The last place known is that of the last token taken. -/
theorem Passes.last_mem {f g : Feed} {taken : List Token} (h : f.Passes taken g)
    (nonempty : taken ≠ []) (located : ∀ t ∈ taken, t.loc.isSome) :
    g.last ∈ taken.map Token.loc := by
  rcases List.eq_nil_or_concat taken with rfl | ⟨front, t, rfl⟩
  · exact absurd rfl nonempty
  · obtain ⟨l, hl⟩ := Option.isSome_iff_exists.1 (located t (by simp))
    rw [h.last, List.concat_eq_append, List.foldl_append]
    simp [hl]

theorem Passes.ordinary {f g : Feed} {taken : List Token} (h : f.Passes taken g)
    (ordinary : ∀ t ∈ f.tokens, t.isOrdinary = true) : ∀ t ∈ g.tokens, t.isOrdinary = true :=
  fun t ht => ordinary t (by rw [h.tokens]; exact List.mem_append_right _ ht)

theorem kind_ne_eof {f : Feed} {t : Token} {ts : List Token}
    (ordinary : ∀ t ∈ f.tokens, t.isOrdinary = true) (h : f.tokens = t :: ts) :
    f.head.kind ≠ .eof := by
  intro eof
  have := ordinary t (by simp [h])
  rw [head_of_cons h] at eof
  simp [Token.isOrdinary, eof] at this

end Feed

namespace Parse

open Grammar

/-- A statement that is not parsed does not start like one of the grammar. -/
theorem underived_of_failed {f rest : Feed} {e : SyntaxError} {le : rest.size ≤ f.size}
    (h : statement f = .failed e rest le) (d : Sentence) (more : List Token)
    (eq : f.tokens = d.tokens ++ more) : ¬ NoElse more := by
  intro noElse
  obtain ⟨g, -, done⟩ := statement_complete d eq noElse
  rw [h] at done
  cases done

theorem raised_of_failed {f rest : Feed} {e : SyntaxError} {le : rest.size ≤ f.size}
    (h : statement f = .failed e rest le) : f.Raised e rest := by
  have along := (statement_along f).1
  rw [h] at along
  cases along with
  | failed raised => exact raised

/-- An error at the end breaks all that is left. -/
theorem broken_at_end {f rest : Feed} {e : SyntaxError} {le : rest.size ≤ f.size}
    (ordinary : ∀ t ∈ f.tokens, t.isOrdinary = true) (nonempty : f.tokens ≠ [])
    (h : statement f = .failed e rest le) (atEnd : e.cause.atEnd = true) :
    Broken f.finish f.tokens e [] := by
  obtain ⟨g, cause, ⟨taken, passes⟩, rfl, hend, parser, -⟩ := raised_of_failed h
  have eof := hend.1 atEnd
  have none : g.tokens = [] := by
    cases hts : g.tokens with
    | nil => rfl
    | cons t ts => exact absurd eof (Feed.kind_ne_eof (passes.ordinary ordinary) hts)
  have all : f.tokens = taken := by rw [passes.tokens, none, List.append_nil]
  have place : (g.errorAt cause).loc = (f.finish <|> g.last) := by
    rw [Feed.errorAt, Feed.head_of_nil none, ← passes.finish]
    rfl
  refine ⟨nonempty, .inl rfl, ?_, ?_, ?_, ?_⟩
  · intro d more eq
    exact underived_of_failed h d more (by rwa [List.append_nil] at eq)
  · exact SyntaxError.isLexical_of_ne parser
  · intro inside
    rw [atEnd] at inside
    cases inside
  · intro _
    refine ⟨rfl, ?_, ?_⟩
    · intro known
      obtain ⟨l, hl⟩ := Option.isSome_iff_exists.1 known
      rw [place, hl]
      rfl
    · intro unknown located
      rw [place, unknown, all]
      exact passes.last_mem (all ▸ nonempty) (all ▸ located)

/-- An error before the end breaks the tokens up to the place where the parser goes on. -/
theorem broken_inside {f rest : Feed} {e : SyntaxError} {le : rest.size ≤ f.size}
    (h : statement f = .failed e rest le) (inside : e.cause.atEnd = false) :
    ∃ taken, f.Passes taken rest.skip ∧ Broken f.finish taken e rest.skip.tokens := by
  obtain ⟨g, cause, ⟨before, passes⟩, rfl, hend, parser, hrest⟩ := raised_of_failed h
  obtain ⟨t, ts, hts⟩ : ∃ t ts, g.tokens = t :: ts := by
    refine List.exists_cons_of_ne_nil fun none => ?_
    have atEnd := hend.2 (by rw [Feed.head_of_nil none]; rfl)
    cases inside.symm.trans atEnd
  -- The token of the error is taken, at the latest when tokens are passed over.
  obtain ⟨behind, more, mem, stops⟩ : ∃ behind, g.Passes behind rest.skip ∧ t ∈ behind ∧
      (rest.skip.tokens = [] ∨ ∃ front u, behind = front ++ [u] ∧ Resumes u) := by
    rcases hrest with rfl | rfl
    · obtain ⟨behind, more, head, stops⟩ := rest.passes_skip
      exact ⟨behind, more, head t (by simp [hts]), stops⟩
    · obtain ⟨behind, more, -, stops⟩ := g.advance.passes_skip
      refine ⟨t :: behind, (Feed.passes_advance hts).trans more, by simp, stops.imp_right ?_⟩
      rintro ⟨front, u, rfl, resumes⟩
      exact ⟨t :: front, u, rfl, resumes⟩
  have all := passes.trans more
  refine ⟨before ++ behind, all, ?_, ?_, ?_, ?_, ?_, ?_⟩
  · intro none
    rw [(List.append_eq_nil_iff.1 none).2] at mem
    cases mem
  · refine stops.imp_right ?_
    rintro ⟨front, u, rfl, resumes⟩
    exact ⟨before ++ front, u, by simp, resumes⟩
  · intro d more eq
    exact underived_of_failed h d more (by rw [all.tokens, eq])
  · exact SyntaxError.isLexical_of_ne parser
  · intro _ located
    obtain ⟨l, hl⟩ := Option.isSome_iff_exists.1 (located t (by simp [mem]))
    have place : (g.errorAt cause).loc = t.loc := by
      rw [Feed.errorAt, Feed.head_of_cons hts, hl]
      rfl
    rw [place]
    exact List.mem_map_of_mem (by simp [mem])
  · intro atEnd
    rw [inside] at atEnd
    cases atEnd

end Parse

namespace Parsed

open Grammar

theorem ofFeed_empty {report : List SyntaxError} {f : Feed} (h : f.tokens = []) :
    ofFeed report f = ⟨[], report⟩ := by
  have empty : f.size = 0 := by rw [Feed.size, h]; rfl
  rw [ofFeed, dif_pos empty]

theorem ofFeed_failed {report : List SyntaxError} {f rest : Feed} {e : SyntaxError}
    {le : rest.size ≤ f.size} (nonempty : f.size ≠ 0) (h : Parse.statement f = .failed e rest le)
    (inside : e.cause.atEnd = false) :
    ofFeed report f = ⟨(ofFeed report rest.skip).statements, e :: (ofFeed report rest.skip).errors⟩ := by
  rw [ofFeed, dif_neg nonempty, h]
  simp [inside]

theorem ofFeed_split (f : Feed) (ordinary : ∀ t ∈ f.tokens, t.isOrdinary = true) :
    ∃ segments, Split f.finish f.tokens segments ∧
      (ofFeed [] f).statements = segments.filterMap Segment.statement? ∧
      (ofFeed [] f).errors = segments.filterMap Segment.error? := by
  generalize hn : f.size = n
  induction n using Nat.strongRecOn generalizing f with
  | ind n ih =>
    subst hn
    by_cases empty : f.size = 0
    · have none : f.tokens = [] := List.length_eq_zero_iff.1 empty
      rw [ofFeed_empty none, none]
      exact ⟨[], .nil, rfl, rfl⟩
    · have nonempty : f.tokens ≠ [] := fun none => empty (List.length_eq_zero_iff.2 none)
      rw [ofFeed, dif_neg empty]
      split
      · rename_i s rest lt hs
        have along := (Parse.statement_along f).1
        obtain ⟨d, htokens, rfl⟩ := (Parse.statement_sound f).1 s rest (by rw [hs]; rfl)
        rw [hs] at along
        cases along with
        | done reached =>
          obtain ⟨taken, passes⟩ := reached
          obtain ⟨segments, split, hstatements, herrors⟩ :=
            ih rest.size lt rest (passes.ordinary ordinary) rfl
          refine ⟨.derived d :: segments, ?_, ?_, ?_⟩
          rotate_left
          · simp [hstatements, Segment.statement?]
          · simp [herrors, List.filterMap_cons, Segment.error?]
          rw [htokens]
          rw [passes.finish] at split
          exact .derived d split
      · rename_i e rest le hs
        split
        · rename_i atEnd
          have broken := Parse.broken_at_end ordinary nonempty hs atEnd
          refine ⟨[.broken f.tokens e], ?_, by simp [Segment.statement?], by simp [Segment.error?]⟩
          have := Split.broken broken .nil
          rwa [List.append_nil] at this
        · rename_i inside
          obtain ⟨taken, passes, broken⟩ :=
            Parse.broken_inside hs (by simpa using inside)
          obtain ⟨segments, split, hstatements, herrors⟩ :=
            ih rest.skip.size (Feed.size_skip_lt_of (by omega) le) rest.skip
              (passes.ordinary ordinary) rfl
          refine ⟨.broken taken e :: segments, ?_, ?_, ?_⟩
          rotate_left
          · simp [hstatements, List.filterMap_cons, Segment.statement?]
          · simp [herrors, Segment.error?]
          rw [passes.tokens]
          rw [passes.finish] at split
          exact .broken broken split

/-- Reaching the end reports before the error that was found there, and behind all others. -/
theorem ofFeed_report (f : Feed) :
    ∃ early late, (∀ report, ofFeed report f = ⟨(ofFeed [] f).statements, early ++ report ++ late⟩) ∧
      (∀ e ∈ early, e.cause.atEnd = false) ∧ (late = [] ∨ ∃ e, late = [e] ∧ e.cause.atEnd = true) := by
  generalize hn : f.size = n
  induction n using Nat.strongRecOn generalizing f with
  | ind n ih =>
    subst hn
    by_cases empty : f.size = 0
    · refine ⟨[], [], fun report => ?_, by simp, .inl rfl⟩
      have none : f.tokens = [] := List.length_eq_zero_iff.1 empty
      rw [ofFeed_empty none, ofFeed_empty none]
      simp
    · cases hs : Parse.statement f with
      | done s rest lt =>
        obtain ⟨early, late, h, before, behind⟩ := ih rest.size lt rest rfl
        refine ⟨early, late, fun report => ?_, before, behind⟩
        have done : (Parse.statement f).done? = some (s, rest) := by rw [hs]; rfl
        rw [ofFeed_done empty done, ofFeed_done empty done, h report]
      | failed e rest le =>
        cases atEnd : e.cause.atEnd with
        | true =>
          refine ⟨[], [e], fun report => ?_, by simp, .inr ⟨e, rfl, atEnd⟩⟩
          rw [ofFeed, ofFeed, dif_neg empty, dif_neg empty, hs]
          simp [atEnd]
        | false =>
          have lt := Feed.size_skip_lt_of (by omega) le
          obtain ⟨early, late, h, before, behind⟩ := ih rest.skip.size lt rest.skip rfl
          refine ⟨e :: early, late, fun report => ?_, ?_, behind⟩
          · rw [ofFeed_failed empty hs atEnd, ofFeed_failed empty hs atEnd, h report]
            rfl
          · rintro e' (_ | ⟨_, mem⟩)
            · exact atEnd
            · exact before e' mem

end Parsed

/-! ## Streams -/

theorem Reader.isLexical_of_mem_ending {stream : List Token} {e : SyntaxError}
    (h : e ∈ (ending stream).2) : e.isLexical = true := by
  unfold ending at h
  split at h
  · cases h
  · dsimp only at h
    split at h
    · cases List.mem_singleton.1 h
      rfl
    · cases h

namespace Parsed

open Grammar

/-- The errors that the parser found itself. -/
def parserErrors (p : Parsed) : List SyntaxError := p.errors.filter fun e => !e.isLexical

/-- What reaching the end reports stands before the error that was found there, and behind all
others. -/
theorem ofTokens_report (ts : List Token) :
    ∃ early late, ofTokens ts =
        ⟨(ofFeed [] (.ofStream ts)).statements, early ++ (Reader.ending ts).2 ++ late⟩ ∧
      (ofFeed [] (.ofStream ts)).errors = early ++ late ∧
      (∀ e ∈ early, e.cause.atEnd = false) ∧ (late = [] ∨ ∃ e, late = [e] ∧ e.cause.atEnd = true) := by
  obtain ⟨early, late, h, before, behind⟩ := ofFeed_report (.ofStream ts)
  refine ⟨early, late, (ofTokens_eq_ofFeed ts).trans (h _), ?_, before, behind⟩
  simpa using congrArg Parsed.errors (h [])

theorem statements_ofTokens (ts : List Token) :
    (ofTokens ts).statements = (ofFeed [] (.ofStream ts)).statements := by
  obtain ⟨early, late, h, -⟩ := ofTokens_report ts
  rw [h]

theorem parserErrors_ofTokens (ts : List Token) :
    (ofTokens ts).parserErrors = (ofFeed [] (.ofStream ts)).errors := by
  obtain ⟨early, late, h, all, -⟩ := ofTokens_report ts
  obtain ⟨segments, split, -, herrors⟩ := ofFeed_split _ (Feed.ordinary_ofStream ts)
  have syntactic : ∀ e ∈ early ++ late, e.isLexical = false := by
    rw [← all, herrors]
    exact split.syntactic
  have lexical : (Reader.ending ts).2.filter (fun e => !e.isLexical) = [] :=
    List.filter_eq_nil_iff.2 fun e he => by simp [Reader.isLexical_of_mem_ending he]
  have kept : (early ++ late).filter (fun e => !e.isLexical) = early ++ late :=
    List.filter_eq_self.2 fun e he => by simp [syntactic e he]
  rw [List.filter_append] at kept
  rw [h, all, parserErrors, List.filter_append, List.filter_append, lexical, List.append_nil, kept]

/-- **Every token is accounted for.** The tokens before the end, without comments, are segments that
stand one behind the other. The statements of the program are those of the derived segments, in
their order; the errors of the parser are those of the broken segments, one each, in their order. A
broken segment has a token, is not the start of a statement, stops behind a `;` or `}` or at the end,
and its error stands at one of its tokens or at the end behind them. -/
theorem accounts_for_every_token (ts : List Token) :
    ∃ segments : List Segment,
      Reader.pending ts = segments.flatMap Segment.tokens ∧
      (∀ s ∈ segments, s.tokens ≠ []) ∧
      (ofTokens ts).statements = segments.filterMap Segment.statement? ∧
      (ofTokens ts).parserErrors = segments.filterMap Segment.error? ∧
      (∀ front tokens e back, segments = front ++ .broken tokens e :: back →
        (back = [] ∨ ∃ before t, tokens = before ++ [t] ∧ Resumes t) ∧
        (∀ (d : Sentence) more, tokens ++ back.flatMap Segment.tokens = d.tokens ++ more →
          ¬ NoElse more) ∧
        ((∀ t ∈ tokens, t.loc.isSome) → e.loc ∈ tokens.map Token.loc ∨
          back = [] ∧ (Reader.ending ts).1.isSome ∧ e.loc = (Reader.ending ts).1)) ∧
      ((ofTokens ts).parserErrors = [] ↔ ∀ s ∈ segments, ∃ d, s = .derived d) := by
  obtain ⟨segments, split, hstatements, herrors⟩ := ofFeed_split _ (Feed.ordinary_ofStream ts)
  refine ⟨segments, split.tokens_eq, split.nonempty, (statements_ofTokens ts).trans hstatements,
    (parserErrors_ofTokens ts).trans herrors, ?_, ?_⟩
  · rintro front tokens e back rfl
    have broken := split.at
    have none : back.flatMap Segment.tokens = [] → back = [] := fun h =>
      List.eq_nil_iff_forall_not_mem.2 fun s hs =>
        split.nonempty s (by simp [hs]) (List.flatMap_eq_nil_iff.1 h s hs)
    refine ⟨broken.stops.imp_left none, broken.underived, fun located => ?_⟩
    exact (broken.place located).imp_right fun ⟨behind, place⟩ => ⟨none behind, place⟩
  · rw [parserErrors_ofTokens, herrors, List.filterMap_eq_nil_iff]
    refine forall₂_congr fun s _ => ?_
    cases s <;> simp [Segment.error?]

end Parsed

end LetWhile
