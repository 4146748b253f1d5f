import LetWhile.Proofs.Grammar.Expression

/-!
# Reading through the buffer

The parser reads a stream through a buffer of one token. `Reader.Shows` ties a reader to the feed of
the tokens that it can still take, in each of its three states: nothing was looked at, a token was
looked at, the end was reached. Every function of the parser gives the same on both, so the program
and the errors are those of the stream without its comments, cut at its end
(`Parsed.ofTokens_eq_ofFeed`).
-/

namespace LetWhile

namespace Feed

/-- With `place` as the last place known, errors at the tokens of the feed stand where they do: it
is the last place of the feed, or no error needs one. -/
def Placed (f : Feed) (place : Option Loc) : Prop :=
  place = f.last ∨ f.finish.isSome ∧ ∀ t ∈ f.tokens, t.loc.isSome

theorem head_of_nil {f : Feed} (h : f.tokens = []) : f.head = .finish f.finish := by
  rw [head, h]
  rfl

theorem advance_of_nil {f : Feed} (h : f.tokens = []) : f.advance = f := by
  rw [advance, h]

theorem head_of_cons {f : Feed} {t : Token} {ts : List Token} (h : f.tokens = t :: ts) :
    f.head = t := by
  rw [head, h]

theorem advance_of_cons {f : Feed} {t : Token} {ts : List Token} (h : f.tokens = t :: ts) :
    f.advance = { f with tokens := ts, last := t.loc <|> f.last } := by
  rw [advance, h]

theorem skip_of_nil {f : Feed} (h : f.tokens = []) : f.skip = f := by
  obtain ⟨tokens, last, finish⟩ := f
  subst h
  rw [skip]

theorem skip_of_cons {f : Feed} {t : Token} {ts : List Token} (h : f.tokens = t :: ts) :
    f.skip = if t.kind = .semicolon ∨ t.kind = .closeCurly then f.advance else f.advance.skip := by
  obtain ⟨tokens, last, finish⟩ := f
  subst h
  rw [skip, advance]

theorem Placed.place {f : Feed} {place : Option Loc} (h : f.Placed place) :
    (f.head.loc <|> place) = (f.head.loc <|> f.last) := by
  rcases h with rfl | ⟨finish, located⟩
  · rfl
  · have known : f.head.loc.isSome := by
      cases hts : f.tokens with
      | nil => rw [head_of_nil hts]; exact finish
      | cons t ts => rw [head_of_cons hts]; exact located t (by simp [hts])
    obtain ⟨l, hl⟩ := Option.isSome_iff_exists.1 known
    simp [hl]

theorem Placed.advance {f : Feed} {place : Option Loc} {t : Token} {ts : List Token}
    (h : f.Placed place) (cons : f.tokens = t :: ts) : f.advance.Placed (t.loc <|> place) := by
  rw [advance_of_cons cons]
  rcases h with rfl | ⟨finish, located⟩
  · exact .inl rfl
  · exact .inr ⟨finish, fun u hu => located u (by simp [cons, hu])⟩

end Feed

/-- Folding stops where no operator binds tighter. -/
theorem Parse.binary_stops {f g : Feed} {left e : Expr} {least : Nat}
    (h : (Parse.binary left least f).done? = some (e, g)) {op : Op}
    (hop : Op.ofKind? g.head.kind = some op) : op.power ≤ least := by
  generalize hn : f.size = n
  induction n using Nat.strongRecOn generalizing f left with
  | ind n ih =>
    subst hn
    rw [Parse.binary] at h
    split at h
    · rename_i none
      cases h
      cases none.symm.trans hop
    · rename_i op' some
      split at h
      · rename_i weak
        cases h
        cases some.symm.trans hop
        exact weak
      · have lt := Feed.size_advance_lt (Feed.ne_eof_of_operator some)
        obtain ⟨right, f₁, lt₁, -, h⟩ := Reply.andThen_eq_some h
        obtain ⟨right', f₂, lt₂, -, h⟩ := Reply.andThen_eq_some h
        exact ih f₂.size (by omega) h rfl

/-! ## Streams -/

namespace Reader

theorem isOrdinary_of_mem_pending {stream : List Token} {t : Token} (h : t ∈ pending stream) :
    t.isOrdinary = true :=
  List.all_eq_true.1 List.all_takeWhile t (List.mem_filter.1 h).1

/-- A stream without an end or an error, or one that is cut at the first. -/
theorem ordinary_or_stops (stream : List Token) :
    (∀ t ∈ stream, t.isOrdinary = true) ∨ ∃ before stop behind, stream = before ++ stop :: behind ∧
      (∀ t ∈ before, t.isOrdinary = true) ∧ stop.isOrdinary = false := by
  induction stream with
  | nil => exact .inl (by simp)
  | cons t ts ih =>
    cases ht : t.isOrdinary with
    | false => exact .inr ⟨[], t, ts, rfl, by simp, ht⟩
    | true =>
      rcases ih with all | ⟨before, stop, behind, rfl, ordinary, stops⟩
      · exact .inl (by simpa [ht] using all)
      · exact .inr ⟨t :: before, stop, behind, rfl, by simpa [ht] using ordinary, stops⟩

theorem pending_append {before behind : List Token} {stop : Token}
    (ordinary : ∀ t ∈ before, t.isOrdinary = true) (stops : stop.isOrdinary = false) :
    pending (before ++ stop :: behind) = before.filter fun t => !t.isComment := by
  rw [pending, List.takeWhile_append_of_pos ordinary]
  simp [stops]

theorem ending_append {before behind : List Token} {stop : Token}
    (ordinary : ∀ t ∈ before, t.isOrdinary = true) (stops : stop.isOrdinary = false) :
    ending (before ++ stop :: behind) =
      (stop.loc, if stop.kind = .error then [⟨stop.loc, .lexical stop.text⟩] else []) := by
  rw [ending, List.dropWhile_append_of_pos ordinary]
  simp [stops]

end Reader

namespace Feed

/-- What a stream brings to the parser. -/
def ofStream (stream : List Token) : Feed :=
  { tokens := Reader.pending stream, finish := (Reader.ending stream).1 }

theorem ordinary_ofStream (stream : List Token) :
    ∀ t ∈ (ofStream stream).tokens, t.isOrdinary = true :=
  fun _ => Reader.isOrdinary_of_mem_pending

end Feed

/-! ## The reader and its feed -/

namespace Reader

/-- The reader can take the tokens of the feed. `noted` are the errors it knows of as long as it has
not come to the end, and `report` is what reaching the end adds to them. -/
inductive Shows (noted report : List SyntaxError) : Reader → Feed → Prop where
  | fresh {stream : List Token} {place : Option Loc} {f : Feed}
      (tokens : f.tokens = pending stream) (ends : ending stream = (f.finish, report))
      (placed : f.Placed place) :
      Shows noted report ⟨stream, none, place, noted⟩ f
  | held {t : Token} {stream : List Token} {place : Option Loc} {f : Feed}
      (tokens : f.tokens = t :: pending stream) (ends : ending stream = (f.finish, report))
      (placed : f.Placed place) (ordinary : t.isOrdinary = true) :
      Shows noted report ⟨stream, some t, t.loc <|> place, noted⟩ f
  | finished {stream : List Token} {place : Option Loc} {f : Feed}
      (tokens : f.tokens = []) (placed : f.Placed place) :
      Shows noted report ⟨stream, some (.finish f.finish), f.finish <|> place, noted ++ report⟩ f

namespace Shows

variable {noted report : List SyntaxError} {r : Reader} {f : Feed}

/-- Looking at the next token: it is the head of the feed, and then the reader is no longer fresh. -/
theorem look (h : Shows noted report r f) :
    r.head = f.head ∧
    ((∃ stream place, f.tokens = f.head :: pending stream ∧ ending stream = (f.finish, report) ∧
      f.Placed place ∧ f.head.isOrdinary = true ∧
      r.looked = ⟨stream, some f.head, f.head.loc <|> place, noted⟩) ∨
    (∃ stream place, f.tokens = [] ∧ f.Placed place ∧
      r.looked = ⟨stream, some (.finish f.finish), f.finish <|> place, noted ++ report⟩)) := by
  cases h with
  | @fresh stream place _ tokens ends placed =>
    obtain ⟨hhead, hlooked⟩ := looked_of_none (r := ⟨stream, none, place, noted⟩) rfl
    rw [hhead, hlooked]
    rcases fetch_cases ⟨stream, none, place, noted⟩ with
      ⟨t, more, hpending, hending, ordinary, hfetch⟩ | ⟨more, hpending, hfetch⟩
    · have cons : f.tokens = t :: pending more := tokens.trans hpending
      rw [hfetch, Feed.head_of_cons cons]
      exact ⟨rfl, .inl ⟨more, place, cons, hending.trans ends, placed, ordinary, rfl⟩⟩
    · have nil : f.tokens = [] := tokens.trans hpending
      rw [hfetch, Feed.head_of_nil nil]
      dsimp only
      rw [ends]
      exact ⟨rfl, .inr ⟨more, place, nil, placed, rfl⟩⟩
  | @held t stream place _ tokens ends placed ordinary =>
    obtain ⟨hhead, hlooked⟩ :=
      looked_of_some (r := ⟨stream, some t, t.loc <|> place, noted⟩) rfl
    rw [hhead, hlooked, Feed.head_of_cons tokens]
    exact ⟨rfl, .inl ⟨stream, place, tokens, ends, placed, ordinary, rfl⟩⟩
  | @finished stream place _ tokens placed =>
    obtain ⟨hhead, hlooked⟩ := looked_of_some
      (r := ⟨stream, some (.finish f.finish), f.finish <|> place, noted ++ report⟩) rfl
    rw [hhead, hlooked, Feed.head_of_nil tokens]
    exact ⟨rfl, .inr ⟨stream, place, tokens, placed, rfl⟩⟩

theorem head (h : Shows noted report r f) : r.head = f.head := h.look.1

theorem looked (h : Shows noted report r f) : Shows noted report r.looked f := by
  obtain ⟨-, ⟨stream, place, tokens, ends, placed, ordinary, hlooked⟩ |
    ⟨stream, place, tokens, placed, hlooked⟩⟩ := h.look
  · rw [hlooked]
    exact .held tokens ends placed ordinary
  · rw [hlooked]
    exact .finished tokens placed

theorem advance (h : Shows noted report r f) : Shows noted report r.advance f.advance := by
  obtain ⟨hhead, ⟨stream, place, tokens, ends, placed, ordinary, hlooked⟩ |
    ⟨stream, place, tokens, placed, hlooked⟩⟩ := h.look
  · rw [advance_of_ordinary (hhead ▸ ordinary), hlooked]
    have rest : f.advance.tokens = pending stream := by rw [Feed.advance_of_cons tokens]
    have ends' : ending stream = (f.advance.finish, report) := by
      rw [ends, Feed.advance_of_cons tokens]
    exact .fresh rest ends' (placed.advance tokens)
  · have stop : r.head.isOrdinary = false := by
      rw [hhead, Feed.head_of_nil tokens]
      rfl
    rw [advance_of_finished stop, hlooked, Feed.advance_of_nil tokens]
    exact .finished tokens placed

/-- An error whose own token is the head of the feed: at the end the report has been made, before
it has not. -/
theorem known (h : Shows noted report r f) {rest : Reader} (same : rest.errors = r.looked.errors)
    (stays : f.tokens = [] → rest = r.looked) :
    if f.head.kind = .eof then f.tokens = [] ∧ rest.looked = rest ∧ rest.errors = noted ++ report
    else rest.errors = noted := by
  obtain ⟨-, ⟨stream, place, tokens, ends, placed, ordinary, hlooked⟩ |
    ⟨stream, place, tokens, placed, hlooked⟩⟩ := h.look
  · have inside : f.head.kind ≠ .eof := by
      intro atEnd
      simp [Token.isOrdinary, atEnd] at ordinary
    rw [if_neg inside, same, hlooked]
  · rw [if_pos (by rw [Feed.head_of_nil tokens]; rfl)]
    exact ⟨tokens, by rw [stays tokens, looked_looked], by rw [same, hlooked]⟩

theorem known_looked (h : Shows noted report r f) :
    if f.head.kind = .eof then
      f.tokens = [] ∧ r.looked.looked = r.looked ∧ r.looked.errors = noted ++ report
    else r.looked.errors = noted :=
  h.known rfl fun _ => rfl

theorem known_advance (h : Shows noted report r f) :
    if f.head.kind = .eof then
      f.advance.tokens = [] ∧ r.advance.looked = r.advance ∧ r.advance.errors = noted ++ report
    else r.advance.errors = noted := by
  have same : r.advance.errors = r.looked.errors := by
    cases ordinary : r.head.isOrdinary with
    | true => rw [advance_of_ordinary ordinary]
    | false => rw [advance_of_finished ordinary]
  have stays (none : f.tokens = []) : r.advance = r.looked := by
    refine advance_of_finished ?_
    rw [h.head, Feed.head_of_nil none]
    rfl
  have known := h.known same stays
  split at known
  · rename_i atEnd
    rw [if_pos atEnd]
    exact ⟨by rw [Feed.advance_of_nil known.1, known.1], known.2⟩
  · rename_i inside
    rwa [if_neg inside]

theorem isOrdinary_of_cons (h : Shows noted report r f) (some : f.tokens ≠ []) :
    f.head.isOrdinary = true := by
  obtain ⟨-, ⟨_, _, _, _, _, ordinary, _⟩ | ⟨_, _, none, _, _⟩⟩ := h.look
  · exact ordinary
  · exact absurd none some

theorem isOrdinary_head (h : Shows noted report r f) (inside : f.head.kind ≠ .eof) :
    f.head.isOrdinary = true := by
  refine h.isOrdinary_of_cons fun none => inside ?_
  rw [Feed.head_of_nil none]
  rfl

theorem errorAt_looked (h : Shows noted report r f) (cause : SyntaxError.Cause) :
    r.looked.errorAt r.head cause = f.errorAt cause := by
  obtain ⟨hhead, ⟨stream, place, tokens, ends, placed, ordinary, hlooked⟩ |
    ⟨stream, place, tokens, placed, hlooked⟩⟩ := h.look
  · rw [hhead, hlooked, errorAt, Feed.errorAt, ← placed.place]
    cases f.head.loc <;> rfl
  · have hplace := placed.place
    rw [Feed.head_of_nil tokens] at hplace
    rw [hhead, hlooked, errorAt, Feed.errorAt, Feed.head_of_nil tokens, ← hplace]
    cases f.finish <;> rfl

theorem errorAt_advance (h : Shows noted report r f) (cause : SyntaxError.Cause) :
    r.advance.errorAt r.head cause = f.errorAt cause := by
  rw [← h.errorAt_looked cause]
  cases ordinary : r.head.isOrdinary with
  | true => rw [advance_of_ordinary ordinary]; rfl
  | false => rw [advance_of_finished ordinary]

end Shows

/-- The same value with rests that show the same, or the same error; an error at the end comes after
the report. -/
inductive Agree (noted report : List SyntaxError) {α : Type} {n m : Nat} :
    Reply α n → LetWhile.Reply α m → Prop where
  | done {a : α} {r : Reader} {f : Feed} {lt : r.size < n} {lt' : f.size < m}
      (view : Shows noted report r f) : Agree noted report (.done a r lt) (.done a f lt')
  | failed {e : SyntaxError} {r : Reader} {f : Feed} {le : r.size ≤ n} {le' : f.size ≤ m}
      (view : Shows noted report r f)
      (known : if e.cause.atEnd then f.tokens = [] ∧ r.looked = r ∧ r.errors = noted ++ report
        else r.errors = noted) :
      Agree noted report (.failed e r le) (.failed e f le')

section

variable {noted report : List SyntaxError} {r : Reader} {f : Feed}

theorem Agree.weaken {α : Type} {n n' m : Nat} {x : Reply α n} {y : LetWhile.Reply α m}
    (h : Agree noted report x y) (le : n ≤ n') : Agree noted report (x.weaken le) y := by
  cases h with
  | done h => exact .done h
  | failed h known => exact .failed h known

theorem Agree.andThen {α β : Type} {n n' m m' : Nat} {x : Reply α n} {y : LetWhile.Reply α m}
    {next : α → (rest : Reader) → rest.size < n → Reply β (rest.size + 1)}
    {next' : α → (rest : Feed) → rest.size < m → LetWhile.Reply β (rest.size + 1)}
    {le : n ≤ n'} {le' : m ≤ m'} (h : Agree noted report x y)
    (then_ : ∀ a r f lt lt', Shows noted report r f →
      Agree noted report (next a r lt) (next' a f lt')) :
    Agree noted report (x.andThen next le) (y.andThen next' le') := by
  cases h with
  | failed h known => exact .failed h known
  | @done a r f lt lt' h =>
    have agree := then_ a r f lt lt' h
    unfold Reply.andThen LetWhile.Reply.andThen
    dsimp only
    generalize next a r lt = x at agree ⊢
    generalize next' a f lt' = y at agree ⊢
    cases agree with
    | done h => exact .done h
    | failed h known => exact .failed h known

theorem expect_agrees (wanted : Wanted) (h : Shows noted report r f) :
    Agree noted report (expect wanted r) (Parse.expect wanted f) := by
  have known := h.known_advance
  have place := h.errorAt_advance (.expected wanted f.head)
  simp only [expect, Parse.expect, next_eq]
  simp only [h.head] at place ⊢
  split
  · exact .done h.advance
  · rw [← place]
    exact .failed h.advance (by simpa [SyntaxError.Cause.atEnd, errorAt] using known)

/-- What is parsed from the reader is what is parsed from the feed. -/
def UnaryAgrees (noted report : List SyntaxError) (f : Feed) : Prop :=
  ∀ r, Shows noted report r f → Agree noted report (unary r) (Parse.unary f)

def BinaryAgrees (noted report : List SyntaxError) (f : Feed) : Prop :=
  ∀ left least r, Shows noted report r f →
    Agree noted report (binary left least r) (Parse.binary left least f)

theorem expr_agrees_of (first : UnaryAgrees noted report f)
    (more : ∀ g : Feed, g.size < f.size → BinaryAgrees noted report g) (h : Shows noted report r f) :
    Agree noted report (expr r) (Parse.expr f) := by
  rw [expr, Parse.expr]
  exact (first r h).andThen fun left r f _ lt h => (more f lt left 0 r h).weaken _

theorem literal_agrees (h : Shows noted report r f) (noMinus : f.head.kind ≠ .minus)
    (noGroup : f.head.kind ≠ .openParen) (noName : f.head.kind ≠ .identifier) :
    Agree noted report (literal r) (Parse.unary f) := by
  have hhead := h.head
  rw [literal, Parse.unary]
  split
  case h_1 kind =>
    rw [hhead] at kind
    have place := h.errorAt_advance (.badNumber f.head.text)
    have known := h.known_advance
    cases read : Number.read? f.head.text with
    | some x =>
      simp only [hhead, read]
      split
      case h_4 => exact .done h.advance
      all_goals simp_all
    | none =>
      simp only [hhead, read] at place ⊢
      split
      case h_4 =>
        rw [← place]
        exact .failed h.advance (by simpa [SyntaxError.Cause.atEnd, errorAt, kind] using known)
      all_goals simp_all
  case h_2 kind =>
    rw [hhead] at kind
    split
    case h_5 => exact .done h.advance
    all_goals simp_all
  case h_3 kind =>
    rw [hhead] at kind
    split
    case h_6 => exact .done h.advance
    all_goals simp_all
  case h_4 =>
    split
    case h_7 =>
      have place := h.errorAt_looked (.noExpression f.head)
      have known := h.known_looked
      simp only [hhead] at place ⊢
      rw [← place]
      exact .failed h.looked (by simpa [SyntaxError.Cause.atEnd, errorAt] using known)
    all_goals simp_all

theorem unaryAgrees_step (first : ∀ g : Feed, g.size < f.size → UnaryAgrees noted report g)
    (more : ∀ g : Feed, g.size < f.size → BinaryAgrees noted report g) :
    UnaryAgrees noted report f := by
  intro r h
  have hhead := h.head
  rw [unary]
  split
  case h_1 kind =>
    rw [hhead] at kind
    have lt := Feed.size_advance_lt (f := f) (by simp [kind])
    rw [Parse.unary]
    split
    case h_1 => exact (first f.advance lt _ h.advance).andThen fun e r f _ _ h => .done h
    all_goals simp_all
  case h_2 kind =>
    rw [hhead] at kind
    have lt := Feed.size_advance_lt (f := f) (by simp [kind])
    rw [Parse.unary]
    split
    case h_2 =>
      have inner := expr_agrees_of (first f.advance lt) (fun g hg => more g (by omega)) h.advance
      exact inner.andThen fun e r f _ _ h =>
        (expect_agrees .closeGroup h).andThen fun t r f _ _ h => .done h
    all_goals simp_all
  case h_3 kind =>
    rw [hhead] at kind
    rw [Parse.unary]
    split
    case h_3 =>
      simp only [hhead]
      exact .done h.advance
    all_goals simp_all
  case h_4 noMinus noGroup noName =>
    rw [hhead] at noMinus noGroup noName
    exact literal_agrees h noMinus noGroup noName

theorem operator?_eq_none_iff {least : Nat} :
    r.operator? least = none ↔ ∀ op, Op.ofKind? r.head.kind = some op → op.power ≤ least := by
  rw [operator?, Option.filter_eq_none_iff]
  simp

/-- The loop on the right operand is left as soon as something was folded: folding has stopped where
nothing binds tighter. -/
theorem tighter_agrees {right : Expr} {power : Nat} (fold : BinaryAgrees noted report f)
    (h : Shows noted report r f) :
    Agree noted report (tighter right power r) (Parse.binary right power f) := by
  rw [tighter]
  split
  · have agree := fold right power _ h.looked
    have stops {e : Expr} {g : Feed} (h : (Parse.binary right power f).done? = some (e, g)) {op : Op}
        (hop : Op.ofKind? g.head.kind = some op) : op.power ≤ power := Parse.binary_stops h hop
    generalize binary right power r.looked = x at agree ⊢
    generalize Parse.binary right power f = y at agree stops ⊢
    cases agree with
    | failed h known => exact .failed h known
    | @done e r g _ _ h =>
      have none : r.operator? power = none := by
        rw [operator?_eq_none_iff, h.head]
        exact fun op hop => stops rfl hop
      unfold Reply.andThen
      dsimp only
      rw [tighter]
      simp only [none]
      exact .done h.looked
  · rename_i none
    have none : r.operator? power = .none := by simpa using none
    rw [operator?_eq_none_iff, h.head] at none
    rw [Parse.binary]
    split
    · exact .done h.looked
    · rename_i op some
      rw [if_pos (none op some)]
      exact .done h.looked

theorem binaryAgrees_step (first : ∀ g : Feed, g.size < f.size → UnaryAgrees noted report g)
    (more : ∀ g : Feed, g.size < f.size → BinaryAgrees noted report g) :
    BinaryAgrees noted report f := by
  intro left least r h
  rw [binary, Parse.binary]
  split
  · rename_i op some
    have ordinary := isOrdinary_of_operator? some
    rw [operator?, Option.filter_eq_some_iff, h.head] at some
    obtain ⟨hop, strong⟩ := some
    have lt := Feed.size_advance_lt (Feed.ne_eof_of_operator hop)
    split
    · rename_i none
      cases none.symm.trans hop
    · rename_i op' some
      cases hop.symm.trans some
      rw [if_neg (by simpa using strong)]
      exact (first f.advance lt _ h.advance).andThen fun right r g _ lt₁ h =>
        (tighter_agrees (more g (by omega)) h).andThen fun right' r g' _ lt₂ h =>
          (more g' (by omega) _ _ r h).weaken _
  · rename_i none
    rw [operator?_eq_none_iff, h.head] at none
    split
    · exact .done h.looked
    · rename_i op some
      rw [if_pos (none op some)]
      exact .done h.looked

theorem expression_agrees (f : Feed) : UnaryAgrees noted report f ∧ BinaryAgrees noted report f :=
  have first (g : Feed) (_ : g.size < f.size) := (expression_agrees g).1
  have more (g : Feed) (_ : g.size < f.size) := (expression_agrees g).2
  ⟨unaryAgrees_step first more, binaryAgrees_step first more⟩
termination_by f.size

theorem expr_agrees (h : Shows noted report r f) :
    Agree noted report (expr r) (Parse.expr f) :=
  expr_agrees_of (expression_agrees f).1 (fun g _ => (expression_agrees g).2) h

theorem terminated_agrees (h : Shows noted report r f) :
    Agree noted report (terminated r) (Parse.terminated f) := by
  unfold terminated Parse.terminated
  exact (expr_agrees h).andThen fun e r f _ _ h =>
    (expect_agrees .semicolon h).andThen fun t r f _ _ h => .done h

theorem condition_agrees (h : Shows noted report r f) :
    Agree noted report (condition r) (Parse.condition f) := by
  unfold condition Parse.condition
  exact (expect_agrees .openTest h).andThen fun t r f _ _ h =>
    (expr_agrees h).andThen fun e r f _ _ h =>
      (expect_agrees .closeTest h).andThen fun t r f _ _ h => .done h

/-- What is parsed from the reader is what is parsed from the feed. -/
def StatementAgrees (noted report : List SyntaxError) (f : Feed) : Prop :=
  ∀ r, Shows noted report r f → Agree noted report (statement r) (Parse.statement f)

def StatementsAgree (noted report : List SyntaxError) (f : Feed) : Prop :=
  ∀ r, Shows noted report r f → Agree noted report (statements r) (Parse.statements f)

theorem block_agrees_of (more : ∀ g : Feed, g.size < f.size → StatementsAgree noted report g)
    (h : Shows noted report r f) : Agree noted report (block r) (Parse.block f) := by
  rw [block, Parse.block]
  exact (expect_agrees .openBlock h).andThen fun t r g _ lt h =>
    (more g lt r h).andThen fun body r g _ _ h => .done h

/-- What does not start with a keyword is parsed on its own. -/
theorem bare_agrees (h : Shows noted report r f) (noLet : f.head.kind ≠ .let)
    (noIf : f.head.kind ≠ .if) (noWhile : f.head.kind ≠ .while) (noPrint : f.head.kind ≠ .print)
    (noReturn : f.head.kind ≠ .return) : Agree noted report (bare r) (Parse.statement f) := by
  have hhead := h.head
  rw [bare, Parse.statement]
  simp only [hhead]
  by_cases name : f.head.kind = .identifier
  · have hsign := h.advance.head
    rw [dif_pos name]
    simp only [hsign]
    by_cases sign : f.advance.head.kind = .assign
    · rw [dif_pos sign]
      split
      case h_6 =>
        rw [dif_pos sign]
        exact (terminated_agrees h.advance.advance).andThen fun e r g _ _ h => .done h
      all_goals contradiction
    · rw [dif_neg sign]
      split
      case h_6 =>
        rw [dif_neg sign]
        exact ((expression_agrees f.advance).2 _ _ _ h.advance.looked).andThen fun e r g _ _ h =>
          (expect_agrees .semicolon h).andThen fun t r g _ _ h => .done h
      all_goals contradiction
  · rw [dif_neg name]
    split
    case h_7 => exact (terminated_agrees h.looked).andThen fun e r g _ _ h => .done h
    all_goals contradiction

theorem statementAgrees_step (more : ∀ g : Feed, g.size < f.size → StatementsAgree noted report g) :
    StatementAgrees noted report f := by
  intro r h
  have hhead := h.head
  rw [statement]
  split
  case h_1 kind =>
    rw [hhead] at kind
    rw [Parse.statement]
    split
    case h_1 =>
      exact (expect_agrees .name h.advance).andThen fun name r f _ _ h =>
        (expect_agrees .assign h).andThen fun t r f _ _ h =>
          (terminated_agrees h).andThen fun e r f _ _ h => .done h
    all_goals simp_all
  case h_2 kind =>
    rw [hhead] at kind
    rw [Parse.statement]
    have lt := Feed.size_advance_lt (f := f) (by simp [kind])
    split
    case h_2 =>
      refine (condition_agrees h.advance).andThen fun test r g _ lt₁ h => ?_
      refine (block_agrees_of (fun g' _ => more g' (by omega)) h).andThen fun yes r g' _ lt₂ h => ?_
      have hother := h.head
      split
      · rename_i other
        rw [dif_pos (by rw [← hother, other])]
        have lt₃ := Feed.size_advance_lt (f := g') (by rw [← hother, other]; simp)
        exact (block_agrees_of (fun g _ => more g (by omega)) h.advance).andThen
          fun no r g _ _ h => .done h
      · rename_i other
        rw [dif_neg (by rw [← hother]; exact other)]
        exact .done h.looked
    all_goals simp_all
  case h_3 kind =>
    rw [hhead] at kind
    rw [Parse.statement]
    have lt := Feed.size_advance_lt (f := f) (by simp [kind])
    split
    case h_3 =>
      exact (condition_agrees h.advance).andThen fun test r g _ lt₁ h =>
        (block_agrees_of (fun g' _ => more g' (by omega)) h).andThen fun body r g _ _ h => .done h
    all_goals simp_all
  case h_4 kind =>
    rw [hhead] at kind
    rw [Parse.statement]
    split
    case h_4 =>
      exact (condition_agrees h.advance).andThen fun e r g _ _ h =>
        (expect_agrees .semicolon h).andThen fun t r g _ _ h => .done h
    all_goals simp_all
  case h_5 kind =>
    rw [hhead] at kind
    rw [Parse.statement]
    split
    case h_5 => exact (terminated_agrees h.advance).andThen fun e r g _ _ h => .done h
    all_goals simp_all
  case h_6 noLet noIf noWhile noPrint noReturn =>
    rw [hhead] at noLet noIf noWhile noPrint noReturn
    exact bare_agrees h noLet noIf noWhile noPrint noReturn

theorem statementsAgree_step (first : StatementAgrees noted report f)
    (more : ∀ g : Feed, g.size < f.size → StatementsAgree noted report g) :
    StatementsAgree noted report f := by
  intro r h
  have hhead := h.head
  rw [statements, Parse.statements]
  simp only [hhead]
  by_cases close : f.head.kind = .closeCurly
  · rw [dif_pos close, dif_pos close]
    exact .done h.advance
  · rw [dif_neg close, dif_neg close]
    by_cases atEnd : f.head.kind = .eof
    · have stop : f.head.isOrdinary = false := by simp [Token.isOrdinary, atEnd]
      have unmoved : r.advance = r.looked := advance_of_finished (by rw [hhead, stop])
      have place := h.errorAt_looked .unclosedBlock
      have known := h.known_looked
      rw [hhead] at place
      rw [if_pos atEnd] at known ⊢
      simp only [stop, unmoved, place]
      exact .failed h.looked known
    · rw [if_neg atEnd, if_pos (h.isOrdinary_head atEnd)]
      exact (first _ h.looked).andThen fun s r g _ lt h =>
        (more g lt _ h).andThen fun body r g _ _ h => .done h

theorem statement_agrees (f : Feed) :
    StatementAgrees noted report f ∧ StatementsAgree noted report f :=
  have more (g : Feed) (_ : g.size < f.size) := (statement_agrees g).2
  have first := statementAgrees_step more
  ⟨first, statementsAgree_step first more⟩
termination_by f.size

/-! ## Whole programs -/

theorem skip_shows (h : Shows noted report r f) : Shows noted report r.skip f.skip := by
  generalize hn : f.size = n
  induction n using Nat.strongRecOn generalizing r f with
  | ind n ih =>
    subst hn
    rw [skip]
    cases hts : f.tokens with
    | nil =>
      have stop : f.head.isOrdinary = false := by
        rw [Feed.head_of_nil hts]
        rfl
      rw [dif_neg (by simp [h.head, stop]), Feed.skip_of_nil hts]
      exact h.looked
    | cons t ts =>
      have ordinary := h.isOrdinary_of_cons (by simp [hts])
      have lt : f.advance.size < f.size := by simp [Feed.size, Feed.advance_of_cons hts, hts]
      rw [h.head, dif_pos ordinary, Feed.skip_of_cons hts, Feed.head_of_cons hts]
      split
      · exact h.advance
      · exact ih _ lt h.advance rfl

/-- Noting an error, as long as there is nothing to report. -/
theorem Shows.note (h : Shows noted report r f) (known : r.errors = noted) (e : SyntaxError) :
    Shows (noted ++ [e]) report (r.note e) f := by
  cases h with
  | fresh tokens ends placed => exact .fresh tokens ends placed
  | held tokens ends placed ordinary => exact .held tokens ends placed ordinary
  | @finished stream place _ tokens placed =>
    have none : report = [] := by simpa using known
    subst none
    have view : Shows (noted ++ [e]) []
        ⟨stream, some (.finish f.finish), f.finish <|> place, noted ++ [e] ++ []⟩ f :=
      .finished tokens placed
    simpa [note] using view

/-- Behind an error at the end nothing more is parsed. -/
theorem run_synchronize_of_finished (looked : r.looked = r) (stop : r.head.isOrdinary = false)
    (e : SyntaxError) : (r.synchronize e).run = ⟨[], r.errors ++ [e]⟩ := by
  have buffer : (r.note e).buffer = some r.head := by
    rw [← buffer_looked, looked, note]
  obtain ⟨hhead, hlooked⟩ := looked_of_some buffer
  have skipped : r.synchronize e = r.note e := by
    rw [synchronize, skip, dif_neg (by simp [hhead, stop]), hlooked]
  rw [skipped, run, dif_neg (by simp [hhead, stop]), hlooked, note]

/-- A reader comes to the program and the errors of its feed. -/
theorem run_eq (h : Shows noted report r f) :
    r.run = ⟨(Parsed.ofFeed report f).statements, noted ++ (Parsed.ofFeed report f).errors⟩ := by
  generalize hn : f.size = n
  induction n using Nat.strongRecOn generalizing noted r f with
  | ind n ih =>
    subst hn
    have hhead := h.head
    rw [run, Parsed.ofFeed]
    by_cases empty : f.size = 0
    · have nil : f.tokens = [] := List.length_eq_zero_iff.1 empty
      have known := h.known_looked
      rw [Feed.head_of_nil nil] at hhead known
      rw [dif_neg (by simp [hhead, Token.finish, Token.isOrdinary]), dif_pos empty]
      simp only [Token.finish, if_true] at known
      rw [known.2.2]
    · have some : f.tokens ≠ [] := fun none => empty (List.length_eq_zero_iff.2 none)
      rw [dif_pos (by rw [hhead]; exact h.isOrdinary_of_cons some), dif_neg empty]
      have agree := (statement_agrees f).1 _ h.looked
      generalize statement r.looked = x at agree ⊢
      generalize Parse.statement f = y at agree ⊢
      cases agree with
      | @done s r g _ lt h => simp only [ih g.size lt h rfl]
      | @failed e r g _ le h known =>
        dsimp only
        cases atEnd : e.cause.atEnd with
        | true =>
          rw [atEnd, if_pos rfl] at known
          obtain ⟨none, looked, errors⟩ := known
          have stop : r.head.isOrdinary = false := by
            rw [h.head, Feed.head_of_nil none]
            rfl
          rw [run_synchronize_of_finished looked stop, errors]
          simp
        | false =>
          rw [atEnd, if_neg (by simp)] at known
          have lt : g.skip.size < f.size := Feed.size_skip_lt_of (by omega) le
          rw [synchronize, ih _ lt (skip_shows (h.note known e)) rfl]
          simp

end

end Reader

namespace Parsed

/-- What the parser makes of the tokens that a scanner delivers: comments are passed over, and
nothing behind the first end or error is read. -/
theorem ofTokens_eq_ofFeed (tokens : List Token) :
    ofTokens tokens = ofFeed (Reader.ending tokens).2 (.ofStream tokens) := by
  have view : Reader.Shows [] (Reader.ending tokens).2 { stream := tokens } (.ofStream tokens) :=
    .fresh rfl rfl (.inl rfl)
  rw [ofTokens, Reader.run_eq view]
  simp

end Parsed

end LetWhile
