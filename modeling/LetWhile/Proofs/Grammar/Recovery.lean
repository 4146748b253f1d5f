import LetWhile.Proofs.Grammar.Segments
import Mathlib

/-!
# Going on behind a broken statement

An error does not reach beyond the semicolon of its statement, unless it was found at the semicolon
by insisting on something else there: the semicolon is then taken with the error, and parsing goes
on behind the next `;` or `}`. Two feeds that have the tokens up to the semicolon in common are
parsed in step (`Parse.statement_inStep`). Main result: `Parsed.recovers_behind_broken`.
-/

namespace LetWhile

/-- A token that neither ends a statement nor opens or closes a block. -/
def Token.isPlain (t : Token) : Bool :=
  t.isOrdinary && !t.isComment && t.kind ≠ .semicolon && t.kind ≠ .openCurly && t.kind ≠ .closeCurly

/-- Something else was wanted where a semicolon was found. -/
def SyntaxError.Cause.takesSemicolon : SyntaxError.Cause → Bool
  | .expected _ found => found.kind = .semicolon
  | _ => false

/-- Plain tokens up to a semicolon. -/
inductive Fence : List Token → Prop where
  | stop {t : Token} (kind : t.kind = .semicolon) : Fence [t]
  | plain {t : Token} {ts : List Token} (plain : t.isPlain = true) (more : Fence ts) : Fence (t :: ts)

theorem Fence.append {front : List Token} {stop : Token} (plain : ∀ t ∈ front, t.isPlain = true)
    (kind : stop.kind = .semicolon) : Fence (front ++ [stop]) := by
  induction front with
  | nil => exact .stop kind
  | cons t front ih => exact .plain (plain t (.head front)) (ih fun u hu => plain u (.tail t hu))

namespace Feed

/-- The first feed ends at the fence; the second has the same tokens up to there, and then `ts`. -/
structure Fenced (ts : List Token) (finish : Option Loc) (f f' : Feed) : Prop where
  fence : Fence f.tokens
  tokens : f'.tokens = f.tokens ++ ts
  last : f'.last = f.last
  finish : f'.finish = finish

/-- Two such feeds behind the semicolon. -/
structure Freed (ts : List Token) (finish : Option Loc) (f f' : Feed) : Prop where
  empty : f.tokens = []
  tokens : f'.tokens = ts
  finish : f'.finish = finish

namespace Fenced

variable {ts : List Token} {finish : Option Loc} {f f' : Feed}

theorem exists_cons (h : Fenced ts finish f f') :
    ∃ t more, Fence (t :: more) ∧ f.tokens = t :: more ∧ f'.tokens = t :: (more ++ ts) := by
  have fence := h.fence
  have same := h.tokens
  cases htokens : f.tokens with
  | nil =>
    rw [htokens] at fence
    cases fence
  | cons t more =>
    rw [htokens] at fence same
    exact ⟨t, more, fence, rfl, same⟩

theorem head (h : Fenced ts finish f f') : f'.head = f.head := by
  obtain ⟨t, more, -, tokens, tokens'⟩ := h.exists_cons
  rw [head_of_cons tokens, head_of_cons tokens']

theorem errorAt (h : Fenced ts finish f f') (cause : SyntaxError.Cause) :
    f'.errorAt cause = f.errorAt cause := by
  rw [Feed.errorAt, Feed.errorAt, h.head, h.last]

/-- The next token is plain or the semicolon. -/
theorem kind_head (h : Fenced ts finish f f') :
    f.head.kind ≠ .eof ∧ f.head.kind ≠ .openCurly ∧ f.head.kind ≠ .closeCurly := by
  obtain ⟨t, more, fence, tokens, -⟩ := h.exists_cons
  rw [head_of_cons tokens]
  cases fence with
  | stop kind => simp [kind]
  | plain plain => simp_all [Token.isPlain, Token.isOrdinary]

theorem advance (h : Fenced ts finish f f') (inside : f.head.kind ≠ .semicolon) :
    Fenced ts finish f.advance f'.advance := by
  obtain ⟨t, more, fence, tokens, tokens'⟩ := h.exists_cons
  rw [head_of_cons tokens] at inside
  rw [advance_of_cons tokens, advance_of_cons tokens']
  cases fence with
  | stop kind => exact absurd kind inside
  | plain plain more => exact ⟨more, rfl, by rw [h.last], h.finish⟩

theorem advance_semicolon (h : Fenced ts finish f f') (stops : f.head.kind = .semicolon) :
    Freed ts finish f.advance f'.advance := by
  obtain ⟨t, more, fence, tokens, tokens'⟩ := h.exists_cons
  rw [head_of_cons tokens] at stops
  rw [advance_of_cons tokens, advance_of_cons tokens']
  cases fence with
  | stop kind => exact ⟨rfl, rfl, h.finish⟩
  | plain plain more => simp [Token.isPlain, stops] at plain

/-- Passing over the tokens up to the semicolon. -/
theorem skip (h : Fenced ts finish f f') : Freed ts finish f.skip f'.skip := by
  generalize hn : f.size = n
  induction n using Nat.strongRecOn generalizing f f' with
  | ind n ih =>
    subst hn
    obtain ⟨t, more, -, tokens, tokens'⟩ := h.exists_cons
    obtain ⟨proper, -, inside⟩ := h.kind_head
    have lt := size_advance_lt proper
    have hhead := head_of_cons tokens
    rw [hhead] at inside
    rw [skip_of_cons tokens, skip_of_cons tokens']
    by_cases stops : t.kind = .semicolon
    · rw [if_pos (.inl stops), if_pos (.inl stops)]
      exact h.advance_semicolon (by rwa [hhead])
    · rw [if_neg (by simp [stops, inside]), if_neg (by simp [stops, inside])]
      exact ih _ lt (h.advance (by rwa [hhead])) rfl

end Fenced

end Feed

/-- The same from both feeds: a value, or an error before the end, which leaves the rests behind the
semicolon exactly if it took it. -/
inductive Reply.InStep (ts : List Token) (finish : Option Loc) (rests : Feed → Feed → Prop)
    {α : Type} {n n' : Nat} : Reply α n → Reply α n' → Prop where
  | done {a : α} {g g' : Feed} {lt : g.size < n} {lt' : g'.size < n'} (left : rests g g') :
      InStep ts finish rests (.done a g lt) (.done a g' lt')
  | failed {e : SyntaxError} {g g' : Feed} {le : g.size ≤ n} {le' : g'.size ≤ n'}
      (inside : e.cause.atEnd = false)
      (left : if e.cause.takesSemicolon then g.Freed ts finish g' else g.Fenced ts finish g') :
      InStep ts finish rests (.failed e g le) (.failed e g' le')

theorem Reply.InStep.andThen {α β : Type} {n n' m m' : Nat} {ts : List Token}
    {finish : Option Loc} {rests rests' : Feed → Feed → Prop} {x : Reply α n} {y : Reply α n'}
    {next : α → (rest : Feed) → rest.size < n → Reply β (rest.size + 1)}
    {next' : α → (rest : Feed) → rest.size < n' → Reply β (rest.size + 1)}
    {le : n ≤ m} {le' : n' ≤ m'} (h : InStep ts finish rests x y)
    (then_ : ∀ a g g' lt lt', rests g g' → InStep ts finish rests' (next a g lt) (next' a g' lt')) :
    InStep ts finish rests' (x.andThen next le) (y.andThen next' le') := by
  cases h with
  | failed inside left => exact .failed inside left
  | @done a g g' lt lt' left =>
    have inStep := then_ a g g' lt lt' left
    unfold Reply.andThen
    dsimp only
    generalize next a g lt = x at inStep ⊢
    generalize next' a g' lt' = y at inStep ⊢
    cases inStep with
    | done left => exact .done left
    | failed inside left => exact .failed inside left

namespace Parse

open Reply Feed

variable {ts : List Token} {finish : Option Loc} {f f' : Feed}

/-- Insisting on a token that is not there takes what is there. -/
theorem expect_failed_inStep (wanted : Wanted) (rests : Feed → Feed → Prop)
    (h : Fenced ts finish f f') (other : f.head.kind ≠ wanted.kind) :
    InStep ts finish rests (expect wanted f) (expect wanted f') := by
  have inside := h.kind_head.1
  simp only [expect, h.head, h.errorAt]
  rw [dif_neg other, dif_neg other]
  refine .failed (by simpa [errorAt, SyntaxError.Cause.atEnd] using inside) ?_
  split
  · rename_i takes
    exact h.advance_semicolon (by simpa [errorAt, SyntaxError.Cause.takesSemicolon] using takes)
  · rename_i leaves
    exact h.advance (by simpa [errorAt, SyntaxError.Cause.takesSemicolon] using leaves)

theorem expect_inStep (wanted : Wanted) (h : Fenced ts finish f f') (proper : wanted ≠ .semicolon) :
    InStep ts finish (Fenced ts finish) (expect wanted f) (expect wanted f') := by
  by_cases there : f.head.kind = wanted.kind
  · simp only [expect, h.head]
    rw [dif_pos there, dif_pos there]
    exact .done (h.advance (by rw [there]; cases wanted <;> simp_all [Wanted.kind]))
  · exact expect_failed_inStep _ _ h there

theorem expect_semicolon_inStep (h : Fenced ts finish f f') :
    InStep ts finish (Freed ts finish) (expect .semicolon f) (expect .semicolon f') := by
  by_cases there : f.head.kind = Wanted.semicolon.kind
  · simp only [expect, h.head]
    rw [dif_pos there, dif_pos there]
    exact .done (h.advance_semicolon there)
  · exact expect_failed_inStep _ _ h there

def UnaryInStep (ts : List Token) (finish : Option Loc) (f : Feed) : Prop :=
  ∀ f', Fenced ts finish f f' → InStep ts finish (Fenced ts finish) (unary f) (unary f')

def BinaryInStep (ts : List Token) (finish : Option Loc) (f : Feed) : Prop :=
  ∀ left least f', Fenced ts finish f f' →
    InStep ts finish (Fenced ts finish) (binary left least f) (binary left least f')

theorem expr_inStep_of (first : UnaryInStep ts finish f)
    (more : ∀ g : Feed, g.size < f.size → BinaryInStep ts finish g) (h : Fenced ts finish f f') :
    InStep ts finish (Fenced ts finish) (expr f) (expr f') := by
  rw [expr.eq_def f, expr.eq_def f']
  exact (first f' h).andThen fun left g g' lt _ h => more g lt left 0 g' h

theorem unaryInStep_step (first : ∀ g : Feed, g.size < f.size → UnaryInStep ts finish g)
    (more : ∀ g : Feed, g.size < f.size → BinaryInStep ts finish g) : UnaryInStep ts finish f := by
  intro f' h
  have hhead := h.head
  rw [unary.eq_def f']
  split
  case h_1 kind =>
    rw [hhead] at kind
    have lt := Feed.size_advance_lt (f := f) (by simp [kind])
    rw [unary.eq_def f]
    split
    case h_1 =>
      exact (first f.advance lt _ (h.advance (by simp [kind]))).andThen fun e g g' _ _ h => .done h
    all_goals simp_all
  case h_2 kind =>
    rw [hhead] at kind
    have lt := Feed.size_advance_lt (f := f) (by simp [kind])
    rw [unary.eq_def f]
    split
    case h_2 =>
      have inner := expr_inStep_of (first f.advance lt) (fun g hg => more g (by omega))
        (h.advance (by simp [kind]))
      exact inner.andThen fun e g g' _ _ h =>
        (expect_inStep .closeGroup h (by decide)).andThen fun t g g' _ _ h => .done h
    all_goals simp_all
  case h_3 kind =>
    rw [hhead] at kind
    rw [unary.eq_def f]
    split
    case h_3 =>
      simp only [hhead]
      exact .done (h.advance (by simp [kind]))
    all_goals simp_all
  case h_4 kind =>
    rw [hhead] at kind
    have rests := h.advance (by simp [kind])
    rw [unary.eq_def f]
    split
    case h_4 =>
      simp only [hhead, h.errorAt]
      cases Number.read? f.head.text with
      | some x => exact .done rests
      | none => exact .failed rfl (by simpa [errorAt, SyntaxError.Cause.takesSemicolon] using rests)
    all_goals simp_all
  case h_5 kind =>
    rw [hhead] at kind
    rw [unary.eq_def f]
    split
    case h_5 => exact .done (h.advance (by simp [kind]))
    all_goals simp_all
  case h_6 kind =>
    rw [hhead] at kind
    rw [unary.eq_def f]
    split
    case h_6 => exact .done (h.advance (by simp [kind]))
    all_goals simp_all
  case h_7 =>
    rw [unary.eq_def f]
    split
    case h_7 =>
      simp only [hhead, h.errorAt]
      exact .failed (by simpa [errorAt, SyntaxError.Cause.atEnd] using h.kind_head.1)
        (by simpa [errorAt, SyntaxError.Cause.takesSemicolon] using h)
    all_goals simp_all

theorem binaryInStep_step (first : ∀ g : Feed, g.size < f.size → UnaryInStep ts finish g)
    (more : ∀ g : Feed, g.size < f.size → BinaryInStep ts finish g) : BinaryInStep ts finish f := by
  intro left least f' h
  rw [binary.eq_def left least f']
  split
  · rename_i none
    rw [h.head] at none
    rw [binary.eq_def left least f]
    split
    · exact .done h
    · simp_all
  · rename_i op some
    rw [h.head] at some
    rw [binary.eq_def left least f]
    split
    · simp_all
    · rename_i op' some'
      cases some.symm.trans some'
      by_cases weak : op.power ≤ least
      · rw [if_pos weak, if_pos weak]
        exact .done h
      · rw [if_neg weak, if_neg weak]
        have lt := Feed.size_advance_lt h.kind_head.1
        have inside : f.head.kind ≠ .semicolon := by
          intro semicolon
          rw [semicolon] at some
          cases some
        exact (first f.advance lt _ (h.advance inside)).andThen fun right g g' lt₁ _ h =>
          (more g (by omega) right op.power g' h).andThen fun right' g g' lt₂ _ h =>
            more g (by omega) _ least g' h

theorem expression_inStep (f : Feed) : UnaryInStep ts finish f ∧ BinaryInStep ts finish f :=
  have first (g : Feed) (_ : g.size < f.size) := (expression_inStep g).1
  have more (g : Feed) (_ : g.size < f.size) := (expression_inStep g).2
  ⟨unaryInStep_step first more, binaryInStep_step first more⟩
termination_by f.size

theorem expr_inStep (h : Fenced ts finish f f') :
    InStep ts finish (Fenced ts finish) (expr f) (expr f') :=
  expr_inStep_of (expression_inStep f).1 (fun g _ => (expression_inStep g).2) h

theorem terminated_inStep (h : Fenced ts finish f f') :
    InStep ts finish (Freed ts finish) (terminated f) (terminated f') := by
  unfold terminated
  exact (expr_inStep h).andThen fun e g g' _ _ h =>
    (expect_semicolon_inStep h).andThen fun t g g' _ _ h => .done h

theorem condition_inStep (h : Fenced ts finish f f') :
    InStep ts finish (Fenced ts finish) (condition f) (condition f') := by
  unfold condition
  exact (expect_inStep .openTest h (by decide)).andThen fun t g g' _ _ h =>
    (expr_inStep h).andThen fun e g g' _ _ h =>
      (expect_inStep .closeTest h (by decide)).andThen fun t g g' _ _ h => .done h

/-- There is no brace before the semicolon. -/
theorem block_inStep (rests : Feed → Feed → Prop) (h : Fenced ts finish f f') :
    InStep ts finish rests (block f) (block f') := by
  rw [block.eq_def f, block.eq_def f']
  exact (expect_failed_inStep .openBlock (fun _ _ => False) h h.kind_head.2.1).andThen
    fun t g g' _ _ h => h.elim

/-- A statement ends at the semicolon, or it is broken there or before. -/
theorem statement_inStep (h : Fenced ts finish f f') :
    InStep ts finish (Freed ts finish) (statement f) (statement f') := by
  have hhead := h.head
  rw [statement.eq_def f']
  split
  case h_1 kind =>
    rw [hhead] at kind
    have h := h.advance (by simp [kind])
    rw [statement.eq_def f]
    split
    case h_1 =>
      exact (expect_inStep .name h (by decide)).andThen fun name g g' _ _ h =>
        (expect_inStep .assign h (by decide)).andThen fun t g g' _ _ h =>
          (terminated_inStep h).andThen fun e g g' _ _ h => .done h
    all_goals simp_all
  case h_2 kind =>
    rw [hhead] at kind
    have h := h.advance (by simp [kind])
    rw [statement.eq_def f]
    split
    case h_2 =>
      exact (condition_inStep h).andThen fun test g g' _ _ h =>
        (block_inStep (fun _ _ => False) h).andThen fun yes g g' _ _ h => h.elim
    all_goals simp_all
  case h_3 kind =>
    rw [hhead] at kind
    have h := h.advance (by simp [kind])
    rw [statement.eq_def f]
    split
    case h_3 =>
      exact (condition_inStep h).andThen fun test g g' _ _ h =>
        (block_inStep (fun _ _ => False) h).andThen fun body g g' _ _ h => h.elim
    all_goals simp_all
  case h_4 kind =>
    rw [hhead] at kind
    have h := h.advance (by simp [kind])
    rw [statement.eq_def f]
    split
    case h_4 =>
      exact (condition_inStep h).andThen fun e g g' _ _ h =>
        (expect_semicolon_inStep h).andThen fun t g g' _ _ h => .done h
    all_goals simp_all
  case h_5 kind =>
    rw [hhead] at kind
    have h := h.advance (by simp [kind])
    rw [statement.eq_def f]
    split
    case h_5 => exact (terminated_inStep h).andThen fun e g g' _ _ h => .done h
    all_goals simp_all
  case h_6 kind =>
    rw [hhead] at kind
    have h := h.advance (by simp [kind])
    have hsign := h.head
    rw [statement.eq_def f]
    split
    case h_6 =>
      simp only [hhead, hsign]
      by_cases sign : f.advance.head.kind = .assign
      · rw [dif_pos sign, dif_pos sign]
        exact (terminated_inStep (h.advance (by simp [sign]))).andThen fun e g g' _ _ h => .done h
      · rw [dif_neg sign, dif_neg sign]
        exact ((expression_inStep f.advance).2 _ _ _ h).andThen fun e g g' _ _ h =>
          (expect_semicolon_inStep h).andThen fun t g g' _ _ h => .done h
    all_goals simp_all
  case h_7 =>
    rw [statement.eq_def f]
    split
    case h_7 => exact (terminated_inStep h).andThen fun e g g' _ _ h => .done h
    all_goals simp_all

end Parse

/-! ## Streams -/

namespace Reader

open Grammar

/-- What is behind the next `;` or `}` of a stream, or its end. -/
def behindNext : List Token → List Token
  | [] => []
  | t :: ts =>
    if t.isOrdinary then
      if t.kind = .semicolon ∨ t.kind = .closeCurly then ts else behindNext ts
    else t :: ts

theorem pending_cons {t : Token} (ts : List Token) (ordinary : t.isOrdinary = true) :
    pending (t :: ts) = if t.isComment then pending ts else t :: pending ts := by
  rw [pending, List.takeWhile_cons, if_pos ordinary, List.filter_cons]
  cases t.isComment <;> rfl

theorem ending_cons {t : Token} (ts : List Token) (ordinary : t.isOrdinary = true) :
    ending (t :: ts) = ending ts := by
  rw [ending, List.dropWhile_cons, if_pos ordinary, ending]

/-- Tokens that are neither comments nor an end are brought as they are. -/
theorem brings_append {front : List Token}
    (proper : ∀ t ∈ front, t.isOrdinary = true ∧ t.isComment = false) (stream : List Token) :
    pending (front ++ stream) = front ++ pending stream ∧ ending (front ++ stream) = ending stream := by
  induction front with
  | nil => exact ⟨rfl, rfl⟩
  | cons t front ih =>
    obtain ⟨ordinary, comment⟩ := proper t (.head front)
    obtain ⟨tokens, ends⟩ := ih fun u hu => proper u (.tail t hu)
    rw [List.cons_append, pending_cons _ ordinary, ending_cons _ ordinary, comment, tokens, ends]
    exact ⟨rfl, rfl⟩

theorem ending_behindNext (stream : List Token) : ending (behindNext stream) = ending stream := by
  fun_induction behindNext stream with
  | case1 => rfl
  | case2 t ts ordinary _ => rw [ending_cons ts ordinary]
  | case3 t ts ordinary _ ih => rw [ending_cons ts ordinary, ih]
  | case4 => rfl

/-- Passing over tokens of the stream. -/
theorem tokens_skip_pending (stream : List Token) (f : Feed) (h : f.tokens = pending stream) :
    f.skip.tokens = pending (behindNext stream) := by
  fun_induction behindNext stream generalizing f with
  | case1 => rw [Feed.skip_of_nil h, h]
  | case2 t ts ordinary resumes =>
    have proper : t.isComment = false := by
      rcases resumes with kind | kind <;> simp [Token.isComment, kind]
    rw [pending_cons ts ordinary, proper] at h
    rw [Feed.skip_of_cons h, if_pos resumes, Feed.advance_of_cons h]
  | case3 t ts ordinary goes ih =>
    rw [pending_cons ts ordinary] at h
    cases comment : t.isComment with
    | true =>
      rw [comment] at h
      exact ih f h
    | false =>
      rw [comment] at h
      rw [Feed.skip_of_cons h, if_neg goes]
      exact ih f.advance (by rw [Feed.advance_of_cons h])
  | case4 t ts stops =>
    have none : pending (t :: ts) = [] := by simp [pending, stops]
    rw [none] at h ⊢
    rw [Feed.skip_of_nil h, h]

theorem mem_of_mem_behindNext {stream : List Token} {t : Token} (h : t ∈ behindNext stream) :
    t ∈ stream := by
  fun_induction behindNext stream with
  | case1 => exact h
  | case2 => exact .tail _ h
  | case3 _ _ _ _ ih => exact .tail _ (ih h)
  | case4 => exact h

theorem ending_isSome {stream : List Token} (located : ∀ t ∈ stream, t.loc.isSome)
    (ends : ∃ t ∈ stream, t.isOrdinary = false) : (ending stream).1.isSome := by
  rcases ordinary_or_stops stream with ordinary | ⟨before, stop, behind, rfl, ordinary, stops⟩
  · obtain ⟨t, ht, stops⟩ := ends
    cases (ordinary t ht).symm.trans stops
  · rw [ending_append ordinary stops]
    exact located stop (by simp)

end Reader

namespace Parsed

/-- With places for all tokens and the end, it does not matter which place was the last before. -/
theorem ofFeed_of_located {stream : List Token} {f : Feed} (tokens : f.tokens = Reader.pending stream)
    (finish : f.finish = (Reader.ending stream).1) (located : ∀ t ∈ stream, t.loc.isSome)
    (known : f.finish.isSome) : ofFeed (Reader.ending stream).2 f = ofTokens stream := by
  have inside : ∀ t ∈ f.tokens, t.loc.isSome := by
    rw [tokens]
    exact fun t ht => located t ((List.takeWhile_sublist _).subset (List.mem_filter.1 ht).1)
  have view : Reader.Shows [] (Reader.ending stream).2 { stream := stream } f :=
    .fresh tokens (by rw [finish]) (.inr ⟨known, inside⟩)
  rw [ofTokens, Reader.run_eq view]
  rfl

/-- A broken statement up to its semicolon has one error. The second feed has that error, and then
goes on as the error left it. -/
theorem ofFeed_fenced {ts : List Token} {finish : Option Loc} {f f' : Feed}
    (h : f.Fenced ts finish f') (fails : (ofFeed [] f).errors ≠ []) (report : List SyntaxError) :
    ∃ e rest, ofFeed [] f = ⟨[], [e]⟩ ∧
      (rest.finish = finish ∧
        (if e.cause.takesSemicolon then ∃ g : Feed, g.tokens = ts ∧ rest = g.skip
          else rest.tokens = ts)) ∧
      ofFeed report f' = ⟨(ofFeed report rest).statements, e :: (ofFeed report rest).errors⟩ := by
  obtain ⟨t, more, -, tokens, tokens'⟩ := h.exists_cons
  have nonempty : f.size ≠ 0 := by simp [Feed.size, tokens]
  have nonempty' : f'.size ≠ 0 := by simp [Feed.size, tokens']
  have inStep := Parse.statement_inStep h
  generalize hs : Parse.statement f = x at inStep
  generalize hs' : Parse.statement f' = y at inStep
  cases inStep with
  | done left =>
    -- The statement ends at the semicolon, and there is nothing behind it.
    rw [ofFeed_done nonempty (by rw [hs]; rfl), ofFeed_empty left.empty] at fails
    exact absurd rfl fails
  | @failed e g g' _ _ inside left =>
    refine ⟨e, g'.skip, ?_, ?_, ofFeed_failed nonempty' hs' inside⟩
    · have empty : g.skip.tokens = [] := by
        split at left
        · rw [Feed.skip_of_nil left.empty, left.empty]
        · exact left.skip.empty
      rw [ofFeed_failed nonempty hs inside, ofFeed_empty empty]
    · split at left
      · obtain ⟨taken, passes, -⟩ := g'.passes_skip
        rw [if_pos ‹_›]
        exact ⟨passes.finish.trans left.finish, g', left.tokens, rfl⟩
      · rw [if_neg ‹_›]
        exact ⟨left.skip.finish, left.skip.tokens⟩

/-- **Parsing goes on behind a broken statement.** Tokens up to a semicolon, none of which ends a
statement or belongs to a block, have one error if they do not parse. With more tokens behind the
semicolon there is the same error, then all that these have on their own. But if something else was
wanted in place of the semicolon, the error takes it along, and the tokens up to the next `;` or `}`
are lost, whatever they are. -/
theorem recovers_behind_broken {broken more : List Token} {stop last : Token}
    (plain : ∀ t ∈ broken, t.isPlain = true) (kind : stop.kind = .semicolon)
    (finish : last.kind = .eof) (fails : (ofTokens (broken ++ [stop, last])).errors ≠ [])
    (located : ∀ t ∈ more, t.loc.isSome) (ends : ∃ t ∈ more, t.isOrdinary = false) :
    ∃ e, ofTokens (broken ++ [stop, last]) = ⟨[], [e]⟩ ∧
      let rest := ofTokens (if e.cause.takesSemicolon then Reader.behindNext more else more)
      ofTokens (broken ++ stop :: more) = ⟨rest.statements, e :: rest.errors⟩ := by
  have proper : ∀ t ∈ broken ++ [stop], t.isOrdinary = true ∧ t.isComment = false := by
    intro t ht
    rcases List.mem_append.1 ht with ht | ht
    · have := plain t ht
      simp_all [Token.isPlain]
    · cases List.mem_singleton.1 ht
      simp [Token.isOrdinary, Token.isComment, kind]
  have alone : ofTokens (broken ++ [stop, last]) =
      ofFeed [] { tokens := broken ++ [stop], finish := last.loc } := by
    rw [← ofTokens_append_end proper finish, List.append_assoc]
    rfl
  have stream : broken ++ stop :: more = broken ++ [stop] ++ more := by simp
  obtain ⟨tokens, ending⟩ := Reader.brings_append proper more
  have fenced : Feed.Fenced (Reader.pending more) (Reader.ending more).1
      { tokens := broken ++ [stop], finish := last.loc } (.ofStream (broken ++ [stop] ++ more)) :=
    ⟨.append plain kind, tokens, rfl, congrArg Prod.fst ending⟩
  rw [alone] at fails ⊢
  obtain ⟨e, rest, one, ⟨place, left⟩, both⟩ := ofFeed_fenced fenced fails (Reader.ending more).2
  refine ⟨e, one, ?_⟩
  have known : rest.finish.isSome := place ▸ Reader.ending_isSome located ends
  have same : ofFeed (Reader.ending more).2 rest =
      ofTokens (if e.cause.takesSemicolon then Reader.behindNext more else more) := by
    split at left
    · obtain ⟨g, behind, rfl⟩ := left
      rw [if_pos ‹_›, ← Reader.ending_behindNext]
      refine ofFeed_of_located (Reader.tokens_skip_pending more g behind) ?_
        (fun t ht => located t (Reader.mem_of_mem_behindNext ht)) known
      rw [Reader.ending_behindNext, place]
    · rw [if_neg ‹_›]
      exact ofFeed_of_located left place located known
  rw [stream, ofTokens_eq_ofFeed (broken ++ [stop] ++ more), ending, both, same]

/-- The tokens of `print(true);`, and the end. -/
def printTrue : List Token := [⟨.print, "print", some ⟨"", 1, 7⟩⟩, ⟨.openParen, "(", some ⟨"", 1, 12⟩⟩,
  ⟨.true, "true", some ⟨"", 1, 13⟩⟩, ⟨.closeParen, ")", some ⟨"", 1, 17⟩⟩,
  ⟨.semicolon, ";", some ⟨"", 1, 18⟩⟩, ⟨.eof, "", some ⟨"", 1, 19⟩⟩]

/-- An operand is missing in `x+;`: the semicolon stays, and the statement behind it is parsed. -/
theorem recovers_behind_broken_sum :
    let broken : List Token := [⟨.identifier, "x", none⟩, ⟨.plus, "+", none⟩]
    let stop : Token := ⟨.semicolon, ";", some ⟨"", 1, 5⟩⟩
    (∀ t ∈ broken, t.isPlain = true) ∧ (∀ t ∈ printTrue, t.loc.isSome) ∧
    (∃ t ∈ printTrue, t.isOrdinary = false) ∧
    ofTokens (broken ++ stop :: printTrue) =
      ⟨[.print (.bool true)], [⟨some ⟨"", 1, 5⟩, .noExpression stop⟩]⟩ := by
  intro broken stop
  have plain : ∀ t ∈ broken, t.isPlain = true := by decide
  have located : ∀ t ∈ printTrue, t.loc.isSome := by decide
  have ends : ∃ t ∈ printTrue, t.isOrdinary = false := by decide
  have alone : ofTokens (broken ++ [stop, ⟨.eof, "", none⟩]) =
      ⟨[], [⟨some ⟨"", 1, 5⟩, .noExpression stop⟩]⟩ := by cbv
  have behind : ofTokens printTrue = ⟨[.print (.bool true)], []⟩ := by cbv
  obtain ⟨e, one, both⟩ := recovers_behind_broken plain rfl rfl (by rw [alone]; simp) located ends
  rw [alone] at one
  cases one
  rw [if_neg (by decide), behind] at both
  exact ⟨plain, located, ends, both⟩

/-- A name is missing in `let;`: the semicolon is taken along, and the statement behind it is lost,
though it is not broken. -/
theorem loses_statement_behind_broken :
    ¬ ∀ (broken more : List Token) (stop last : Token), broken ≠ [] →
      (∀ t ∈ broken, t.isPlain = true) → stop.kind = .semicolon → last.kind = .eof →
      (ofTokens (broken ++ [stop, last])).errors ≠ [] →
      (∀ t ∈ broken ++ stop :: more, t.loc.isSome) → (∃ t ∈ more, t.isOrdinary = false) →
      ofTokens (broken ++ stop :: more) = ⟨(ofTokens more).statements,
        (ofTokens (broken ++ [stop, last])).errors ++ (ofTokens more).errors⟩ := by
  intro recovers
  have kept := recovers [⟨.let, "let", some ⟨"", 1, 1⟩⟩] printTrue ⟨.semicolon, ";", some ⟨"", 1, 5⟩⟩
    ⟨.eof, "", some ⟨"", 1, 6⟩⟩ (by simp) (by decide) rfl rfl (by cbv; simp) (by decide) (by decide)
  have behind : (ofTokens printTrue).statements = [.print (.bool true)] := by cbv
  have lost : (ofTokens (⟨.let, "let", some ⟨"", 1, 1⟩⟩ :: ⟨.semicolon, ";", some ⟨"", 1, 5⟩⟩ ::
      printTrue)).statements = [] := by cbv
  have same := congrArg Parsed.statements kept
  rw [List.singleton_append, lost, behind] at same
  cases same

end Parsed

end LetWhile
