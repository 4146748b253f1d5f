import LetWhile.Program.Parse

/-!
# Parsing a plain list

The parser without its buffer. A feed is the list of the tokens that can be taken, none of them a
comment or an end, with the place of the last one that was taken and the place of the end; the
functions on feeds descend like those on readers. The theory of the grammar is about feeds; a reader
does the same (`Parsed.ofTokens_eq_ofFeed`).
-/
namespace LetWhile

/-- The tokens still to be parsed, with the place of the last one parsed that has a place, and the
place where the tokens end. -/
structure Feed where
  tokens : List Token
  last : Option Loc := none
  finish : Option Loc := none

namespace Feed

def size (f : Feed) : Nat := f.tokens.length

/-- The next token; behind the last one, the end. -/
def head (f : Feed) : Token :=
  match f.tokens with
  | [] => ⟨.eof, "", f.finish⟩
  | t :: _ => t

def advance (f : Feed) : Feed :=
  match f.tokens with
  | [] => f
  | t :: ts => { f with tokens := ts, last := t.loc <|> f.last }

/-- An error at the next token. -/
def errorAt (f : Feed) (cause : SyntaxError.Cause) : SyntaxError := ⟨f.head.loc <|> f.last, cause⟩

/-- Passes over the tokens up to the first `;` or `}`, and over that one. -/
def skip : Feed → Feed
  | ⟨[], last, finish⟩ => ⟨[], last, finish⟩
  | ⟨t :: ts, last, finish⟩ =>
    if t.kind = .semicolon ∨ t.kind = .closeCurly then ⟨ts, t.loc <|> last, finish⟩
    else skip ⟨ts, t.loc <|> last, finish⟩
termination_by f => f.tokens.length

theorem size_advance_le (f : Feed) : f.advance.size ≤ f.size := by
  unfold advance size
  split <;> simp_all

theorem size_advance_lt {f : Feed} (h : f.head.kind ≠ .eof) : f.advance.size < f.size := by
  unfold head at h
  unfold advance size
  split at h
  · exact absurd rfl h
  · rename_i t ts heq
    simp [heq]

theorem ne_eof_of_operator {f : Feed} {op : Op} (h : Op.ofKind? f.head.kind = some op) :
    f.head.kind ≠ .eof := by
  intro eof
  rw [eof] at h
  cases h

theorem size_skip_le (f : Feed) : f.skip.size ≤ f.size := by
  fun_induction skip f with
  | case1 => simp [size]
  | case2 => simp [size]
  | case3 t ts last finish _ ih =>
    simp only [size, List.length_cons] at ih ⊢
    omega

theorem size_skip_lt {f : Feed} (h : 0 < f.size) : f.skip.size < f.size := by
  rcases f with ⟨_ | ⟨t, ts⟩, last, finish⟩
  · simp [size] at h
  · rw [skip]
    split
    · simp [size]
    · have := size_skip_le ⟨ts, t.loc <|> last, finish⟩
      simp only [size, List.length_cons] at this ⊢
      omega

theorem size_skip_lt_of {f : Feed} {n : Nat} (pos : 0 < n) (le : f.size ≤ n) :
    f.skip.size < n := by
  rcases Nat.eq_zero_or_pos f.size with zero | more
  · have := f.size_skip_le
    omega
  · have := size_skip_lt more
    omega

end Feed

/-- What parsing from a feed of `n` tokens, or `n - 1`, gives: a value and the rest, or an error and
the tokens that it left. Neither has more tokens than there were, and a value leaves fewer. -/
inductive Reply (α : Type) (n : Nat) where
  | done (value : α) (rest : Feed) (shorter : rest.size < n)
  | failed (error : SyntaxError) (rest : Feed) (bounded : rest.size ≤ n)

/-- Goes on with the rest after a value. -/
def Reply.andThen {α β : Type} {n m : Nat} (r : Reply α n)
    (next : α → (rest : Feed) → rest.size < n → Reply β (rest.size + 1))
    (le : n ≤ m := by omega) : Reply β m :=
  match r with
  | .failed e rest h => .failed e rest (by omega)
  | .done a rest h =>
    match next a rest h with
    | .failed e rest' h' => .failed e rest' (by omega)
    | .done b rest' h' => .done b rest' (by omega)

namespace Parse

/-- Takes the wanted token. Another token is an error, and is taken too. -/
def expect (wanted : Wanted) (f : Feed) : Reply Token f.size :=
  if h : f.head.kind = wanted.kind then
    .done f.head f.advance (Feed.size_advance_lt (by rw [h]; cases wanted <;> simp [Wanted.kind]))
  else .failed (f.errorAt (.expected wanted f.head)) f.advance f.size_advance_le

mutual

/-- An operand with any number of minus signs before it. A minus sign subtracts from zero. -/
def unary (f : Feed) : Reply Expr f.size :=
  match h : f.head.kind with
  | .minus =>
    have := Feed.size_advance_lt (f := f) (by simp [h])
    (unary f.advance).andThen fun e f _ => .done (.binary .sub (.number 0) e) f (by omega)
  | .openParen =>
    have := Feed.size_advance_lt (f := f) (by simp [h])
    (expr f.advance).andThen fun e f _ =>
    (expect .closeGroup f).andThen fun _ f _ => .done e f (by omega)
  | .identifier =>
    .done (.variable f.head.text) f.advance (Feed.size_advance_lt (by simp [h]))
  | .number =>
    match Number.read? f.head.text with
    | some x => .done (.number x) f.advance (Feed.size_advance_lt (by simp [h]))
    | none => .failed (f.errorAt (.badNumber f.head.text)) f.advance f.size_advance_le
  | .true => .done (.bool true) f.advance (Feed.size_advance_lt (by simp [h]))
  | .false => .done (.bool false) f.advance (Feed.size_advance_lt (by simp [h]))
  | _ => .failed (f.errorAt (.noExpression f.head)) f (Nat.le_refl _)
termination_by 3 * f.size

/-- Folds onto `left` the operators that bind tighter than `least`. -/
def binary (left : Expr) (least : Nat) (f : Feed) : Reply Expr (f.size + 1) :=
  match h : Op.ofKind? f.head.kind with
  | none => .done left f (Nat.lt_succ_self _)
  | some op =>
    if op.power ≤ least then .done left f (Nat.lt_succ_self _)
    else
      have := Feed.size_advance_lt (Feed.ne_eof_of_operator h)
      (unary f.advance).andThen fun right f _ =>
      (binary right op.power f).andThen fun right f _ =>
      binary (.binary op left right) least f
termination_by 3 * f.size + 2

def expr (f : Feed) : Reply Expr f.size :=
  (unary f).andThen fun left f _ => binary left 0 f
termination_by 3 * f.size + 1

end

/-- An expression and a semicolon. -/
def terminated (f : Feed) : Reply Expr f.size :=
  (expr f).andThen fun e f _ => (expect .semicolon f).andThen fun _ f _ => .done e f (by omega)

/-- An expression in parentheses. -/
def condition (f : Feed) : Reply Expr f.size :=
  (expect .openTest f).andThen fun _ f _ =>
  (expr f).andThen fun e f _ =>
  (expect .closeTest f).andThen fun _ f _ => .done e f (by omega)

mutual

def statement (f : Feed) : Reply Stmt f.size :=
  match h : f.head.kind with
  | .let =>
    have := Feed.size_advance_lt (f := f) (by simp [h])
    (expect .name f.advance).andThen fun name f _ =>
    (expect .assign f).andThen fun _ f _ =>
    (terminated f).andThen fun e f _ => .done (.declare name.text e) f (by omega)
  | .if =>
    have := Feed.size_advance_lt (f := f) (by simp [h])
    (condition f.advance).andThen fun test f _ =>
    (block f).andThen fun yes f _ =>
    if h : f.head.kind = .else then
      have := Feed.size_advance_lt (f := f) (by simp [h])
      (block f.advance).andThen fun no f _ => .done (.branch test yes (some no)) f (by omega)
    else .done (.branch test yes none) f (by omega)
  | .while =>
    have := Feed.size_advance_lt (f := f) (by simp [h])
    (condition f.advance).andThen fun test f _ =>
    (block f).andThen fun body f _ => .done (.loop test body) f (by omega)
  | .print =>
    have := Feed.size_advance_lt (f := f) (by simp [h])
    (condition f.advance).andThen fun e f _ =>
    (expect .semicolon f).andThen fun _ f _ => .done (.print e) f (by omega)
  | .return =>
    have := Feed.size_advance_lt (f := f) (by simp [h])
    (terminated f.advance).andThen fun e f _ => .done (.result e) f (by omega)
  | .identifier =>
    have := Feed.size_advance_lt (f := f) (by simp [h])
    let name := f.head.text
    if h : f.advance.head.kind = .assign then
      have := Feed.size_advance_lt (f := f.advance) (by simp [h])
      (terminated f.advance.advance).andThen fun e f _ => .done (.assign name e) f (by omega)
    else
      (binary (.variable name) 0 f.advance).andThen fun e f _ =>
      (expect .semicolon f).andThen fun _ f _ => .done (.eval e) f (by omega)
  | _ => (terminated f).andThen fun e f _ => .done (.eval e) f (by omega)
termination_by 3 * f.size

/-- Statements in braces. -/
def block (f : Feed) : Reply Block f.size :=
  (expect .openBlock f).andThen fun _ f _ =>
  (statements f).andThen fun body f _ => .done body f (by omega)
termination_by 3 * f.size + 2

/-- Statements up to a closing brace. -/
def statements (f : Feed) : Reply Block f.size :=
  if h : f.head.kind = .closeCurly then .done [] f.advance (Feed.size_advance_lt (by simp [h]))
  else if f.head.kind = .eof then .failed (f.errorAt .unclosedBlock) f (Nat.le_refl _)
  else
    (statement f).andThen fun s f _ =>
    (statements f).andThen fun body f _ => .done (s :: body) f (by omega)
termination_by 3 * f.size + 1

end

end Parse

namespace Parsed

/-- Parses to the end of the tokens. `report` is what reaching the end reports; an error found there
comes after it. -/
def ofFeed (report : List SyntaxError) (f : Feed) : Parsed :=
  if _ : f.size = 0 then ⟨[], report⟩
  else match Parse.statement f with
    | .done s rest _ =>
      let more := ofFeed report rest
      ⟨s :: more.statements, more.errors⟩
    | .failed e rest _ =>
      if e.cause.atEnd then ⟨[], report ++ [e]⟩
      else
        let more := ofFeed report rest.skip
        ⟨more.statements, e :: more.errors⟩
termination_by f.size
decreasing_by
  · assumption
  · exact Feed.size_skip_lt_of (by omega) ‹_›

end Parsed

end LetWhile
