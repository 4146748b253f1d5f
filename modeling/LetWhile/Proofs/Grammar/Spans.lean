import LetWhile.Proofs.Grammar.Feed

/-!
# What parsing takes

Parsing takes tokens one after the other, from the first on, whether it comes to a value or to an
error. An error is found at the token next in line, which is left or taken last
(`Parse.statement_along`).
-/

namespace LetWhile

namespace Feed

/-- From `f` one comes to `g` by taking the tokens `taken`. -/
structure Passes (f : Feed) (taken : List Token) (g : Feed) : Prop where
  tokens : f.tokens = taken ++ g.tokens
  finish : g.finish = f.finish
  last : g.last = taken.foldl (fun place t => t.loc <|> place) f.last

theorem Passes.refl (f : Feed) : f.Passes [] f := ⟨rfl, rfl, rfl⟩

theorem Passes.trans {f g h : Feed} {xs ys : List Token} (first : f.Passes xs g)
    (more : g.Passes ys h) : f.Passes (xs ++ ys) h where
  tokens := by rw [first.tokens, more.tokens, List.append_assoc]
  finish := more.finish.trans first.finish
  last := by rw [more.last, first.last, List.foldl_append]

theorem passes_advance {f : Feed} {t : Token} {ts : List Token} (h : f.tokens = t :: ts) :
    f.Passes [t] f.advance := by
  unfold advance
  rw [h]
  exact ⟨h, rfl, rfl⟩

/-- From `f` one comes to `g` by taking tokens. -/
def Reaches (f g : Feed) : Prop := ∃ taken, f.Passes taken g

theorem Reaches.refl (f : Feed) : f.Reaches f := ⟨[], .refl f⟩

theorem Reaches.trans {f g h : Feed} (first : f.Reaches g) (more : g.Reaches h) : f.Reaches h :=
  have ⟨_, passes⟩ := first
  have ⟨_, passes'⟩ := more
  ⟨_, passes.trans passes'⟩

theorem reaches_advance (f : Feed) : f.Reaches f.advance := by
  cases h : f.tokens with
  | nil =>
    have same : f.advance = f := by rw [advance, h]
    rw [same]
    exact .refl f
  | cons t ts => exact ⟨[t], passes_advance h⟩

/-- From `f` on, the error was found at the next token in line, which is left in `rest` or was taken
last. -/
def Raised (f : Feed) (e : SyntaxError) (rest : Feed) : Prop :=
  ∃ g cause, f.Reaches g ∧ e = g.errorAt cause ∧ (cause.atEnd = true ↔ g.head.kind = .eof) ∧
    (∀ message, cause ≠ .lexical message) ∧ (rest = g ∨ rest = g.advance)

end Feed

/-- What parsing from `f` came to, it came to by taking tokens from there on. -/
inductive Reply.Along (f : Feed) {α : Type} {n : Nat} : Reply α n → Prop where
  | done {a : α} {rest : Feed} {lt : rest.size < n} (reached : f.Reaches rest) :
      Along f (.done a rest lt)
  | failed {e : SyntaxError} {rest : Feed} {le : rest.size ≤ n} (raised : f.Raised e rest) :
      Along f (.failed e rest le)

namespace Reply.Along

variable {α β : Type} {n m : Nat} {f g : Feed}

theorem after (reached : f.Reaches g) {r : Reply α n} (h : Along g r) : Along f r := by
  cases h with
  | done h => exact .done (reached.trans h)
  | failed h =>
    obtain ⟨g', cause, hg', rest⟩ := h
    exact .failed ⟨g', cause, reached.trans hg', rest⟩

theorem andThen {r : Reply α n} {next : α → (rest : Feed) → rest.size < n → Reply β (rest.size + 1)}
    {le : n ≤ m} (h : Along f r) (then_ : ∀ a g lt, Along g (next a g lt)) :
    Along f (r.andThen next le) := by
  cases h with
  | failed raised => exact .failed raised
  | @done a g lt reached =>
    have along := (then_ a g lt).after reached
    unfold Reply.andThen
    dsimp only
    generalize next a g lt = r at along ⊢
    cases along with
    | done h => exact .done h
    | failed h => exact .failed h

end Reply.Along

namespace Parse

open Reply

theorem expect_along (wanted : Wanted) (f : Feed) : Along f (expect wanted f) := by
  unfold expect
  split
  · exact .done f.reaches_advance
  · exact .failed ⟨f, _, .refl f, rfl, by simp [SyntaxError.Cause.atEnd], by simp, .inr rfl⟩

theorem expr_along_of {f : Feed} (first : Along f (unary f))
    (more : ∀ g : Feed, g.size < f.size → ∀ left least, Along g (binary left least g)) :
    Along f (expr f) := by
  rw [expr]
  exact first.andThen fun left g lt => more g lt left 0

theorem unary_along_step {f : Feed} (first : ∀ g : Feed, g.size < f.size → Along g (unary g))
    (more : ∀ g : Feed, g.size < f.size → ∀ left least, Along g (binary left least g)) :
    Along f (unary f) := by
  rw [unary]
  split
  · rename_i kind
    have lt := Feed.size_advance_lt (f := f) (by simp [kind])
    exact ((first _ lt).after f.reaches_advance).andThen fun e g _ => .done (.refl g)
  · rename_i kind
    have lt := Feed.size_advance_lt (f := f) (by simp [kind])
    have inner := expr_along_of (first _ lt) fun g hg => more g (by omega)
    exact (inner.after f.reaches_advance).andThen fun e g _ =>
      (expect_along .closeGroup g).andThen fun t g _ => .done (.refl g)
  · exact .done f.reaches_advance
  · split
    · exact .done f.reaches_advance
    · rename_i kind _ _
      exact .failed ⟨f, _, .refl f, rfl, by simp [SyntaxError.Cause.atEnd, kind],
        by simp, .inr rfl⟩
  · exact .done f.reaches_advance
  · exact .done f.reaches_advance
  · exact .failed ⟨f, _, .refl f, rfl, by simp [SyntaxError.Cause.atEnd], by simp, .inl rfl⟩

theorem binary_along_step {f : Feed} (first : ∀ g : Feed, g.size < f.size → Along g (unary g))
    (more : ∀ g : Feed, g.size < f.size → ∀ left least, Along g (binary left least g)) (left : Expr)
    (least : Nat) : Along f (binary left least f) := by
  rw [binary]
  split
  · exact .done (.refl f)
  · rename_i op hop
    split
    · exact .done (.refl f)
    · have lt := Feed.size_advance_lt (Feed.ne_eof_of_operator hop)
      exact ((first _ lt).after f.reaches_advance).andThen fun right g lt₁ =>
        (more g (by omega) right op.power).andThen fun right' g' lt₂ => more g' (by omega) _ least

theorem expression_along (f : Feed) :
    Along f (unary f) ∧ ∀ left least, Along f (binary left least f) :=
  have first (g : Feed) (_ : g.size < f.size) := (expression_along g).1
  have more (g : Feed) (_ : g.size < f.size) := (expression_along g).2
  ⟨unary_along_step first more, binary_along_step first more⟩
termination_by f.size

theorem expr_along (f : Feed) : Along f (expr f) :=
  expr_along_of (expression_along f).1 fun g _ => (expression_along g).2

theorem terminated_along (f : Feed) : Along f (terminated f) := by
  unfold terminated
  exact (expr_along f).andThen fun e g _ =>
    (expect_along .semicolon g).andThen fun t g _ => .done (.refl g)

theorem condition_along (f : Feed) : Along f (condition f) := by
  unfold condition
  exact (expect_along .openTest f).andThen fun t g _ => (expr_along g).andThen fun e g _ =>
    (expect_along .closeTest g).andThen fun t g _ => .done (.refl g)

theorem block_along_of {f : Feed} (more : ∀ g : Feed, g.size < f.size → Along g (statements g)) :
    Along f (block f) := by
  rw [block]
  exact (expect_along .openBlock f).andThen fun t g lt =>
    (more g lt).andThen fun body g _ => .done (.refl g)

theorem statement_along_step {f : Feed}
    (more : ∀ g : Feed, g.size < f.size → Along g (statements g)) : Along f (statement f) := by
  rw [statement]
  split
  · exact ((expect_along .name f.advance).after f.reaches_advance).andThen fun name g _ =>
      (expect_along .assign g).andThen fun t g _ =>
        (terminated_along g).andThen fun e g _ => .done (.refl g)
  · rename_i kind
    have lt := Feed.size_advance_lt (f := f) (by simp [kind])
    refine ((condition_along f.advance).after f.reaches_advance).andThen fun test g lt₁ => ?_
    refine (block_along_of fun g' _ => more g' (by omega)).andThen fun yes g' lt₂ => ?_
    split
    · rename_i other
      have lt₃ := Feed.size_advance_lt (f := g') (by simp [other])
      exact ((block_along_of fun g _ => more g (by omega)).after g'.reaches_advance).andThen
        fun no g _ => .done (.refl g)
    · exact .done (.refl g')
  · rename_i kind
    have lt := Feed.size_advance_lt (f := f) (by simp [kind])
    exact ((condition_along f.advance).after f.reaches_advance).andThen fun test g lt₁ =>
      (block_along_of fun g' _ => more g' (by omega)).andThen fun body g _ => .done (.refl g)
  · exact ((condition_along f.advance).after f.reaches_advance).andThen fun e g _ =>
      (expect_along .semicolon g).andThen fun t g _ => .done (.refl g)
  · exact ((terminated_along f.advance).after f.reaches_advance).andThen fun e g _ =>
      .done (.refl g)
  · dsimp only
    split
    · exact ((terminated_along _).after (f.reaches_advance.trans f.advance.reaches_advance)).andThen
        fun e g _ => .done (.refl g)
    · exact (((expression_along f.advance).2 _ 0).after f.reaches_advance).andThen fun e g _ =>
        (expect_along .semicolon g).andThen fun t g _ => .done (.refl g)
  · exact (terminated_along f).andThen fun e g _ => .done (.refl g)

theorem statements_along_step {f : Feed} (first : Along f (statement f))
    (more : ∀ g : Feed, g.size < f.size → Along g (statements g)) : Along f (statements f) := by
  rw [statements]
  split
  · exact .done f.reaches_advance
  · split
    · rename_i atEnd
      exact .failed ⟨f, _, .refl f, rfl, by simp [SyntaxError.Cause.atEnd, atEnd],
        by simp, .inl rfl⟩
    · exact first.andThen fun s g lt => (more g lt).andThen fun body g _ => .done (.refl g)

/-- Parsing a statement takes tokens from the first on, up to its value or its error. -/
theorem statement_along (f : Feed) : Along f (statement f) ∧ Along f (statements f) :=
  have more (g : Feed) (_ : g.size < f.size) := (statement_along g).2
  have first := statement_along_step more
  ⟨first, statements_along_step first more⟩
termination_by f.size

end Parse

end LetWhile
