import LetWhile.Program
import LetWhile.SyntaxError
import LetWhile.Decimal.Read
import LetWhile.Token.Scan

/-!
From tokens to statements. The parser asks for one token at a time and holds at most one that it
looked at and did not take; comments never come that far, and at the end of the tokens it stops
asking. A statement that cannot be parsed is reported once and given up: the tokens up to the next
`;` or `}` are passed over and parsing goes on behind it, so one run finds the errors of the whole
text.
-/
namespace LetWhile

/-- The end of the tokens, as the parser sees it. -/
def Token.finish (loc : Option Loc) : Token := ⟨.eof, "", loc⟩

/-- What the parser holds: the tokens it has not asked for, the token it looked at and did not take,
the place of the last token that came with one, and the errors found so far. -/
structure Reader where
  stream : List Token
  buffer : Option Token := none
  last : Option Loc := none
  errors : List SyntaxError := []

namespace Reader

/-- Asks for a token, passing over comments. An error among the tokens is noted and read as their
end. The end stays in the buffer, so that nothing behind it is ever asked for. -/
def fetch (r : Reader) : Token × Reader :=
  match r.stream.dropWhile Token.isComment with
  | [] => (.finish none, { r with stream := [], buffer := some (.finish none) })
  | t :: ts =>
    let r := { r with stream := ts, last := t.loc <|> r.last }
    match t.kind with
    | .error =>
      (.finish t.loc, { r with
        buffer := some (.finish t.loc)
        errors := r.errors ++ [⟨t.loc, .lexical t.text⟩] })
    | .eof => (.finish t.loc, { r with buffer := some (.finish t.loc) })
    | _ => (t, r)

/-- Looks at the next token. -/
def peek (r : Reader) : Token × Reader :=
  match r.buffer with
  | some t => (t, r)
  | none =>
    let (t, r) := r.fetch
    (t, { r with buffer := some t })

/-- Takes the next token. The end cannot be taken. -/
def next (r : Reader) : Token × Reader :=
  match r.buffer with
  | some t => (t, if t.isOrdinary then { r with buffer := none } else r)
  | none => r.fetch

/-- The next token. -/
def head (r : Reader) : Token := r.peek.1

/-- The reader once it has looked at the next token. -/
def looked (r : Reader) : Reader := r.peek.2

/-- The reader once it has looked at the next token and taken it. -/
def advance (r : Reader) : Reader := r.looked.next.2

/-- An error at a token, or at the last place known if the token has none. -/
def errorAt (r : Reader) (t : Token) (cause : SyntaxError.Cause) : SyntaxError :=
  ⟨t.loc <|> r.last, cause⟩

/-! ### The tokens to come -/

/-- The tokens that a stream brings to the parser before the end. -/
def pending (stream : List Token) : List Token :=
  (stream.takeWhile Token.isOrdinary).filter fun t => !t.isComment

/-- The tokens that can still be taken. -/
def tokens (r : Reader) : List Token :=
  match r.buffer with
  | some t => if t.isOrdinary then t :: pending r.stream else []
  | none => pending r.stream

def size (r : Reader) : Nat := r.tokens.length

/-- Where a stream ends, and what reaching its end reports. -/
def ending (stream : List Token) : Option Loc × List SyntaxError :=
  match stream.dropWhile Token.isOrdinary with
  | [] => (none, [])
  | t :: _ => (t.loc, if t.kind = .error then [⟨t.loc, .lexical t.text⟩] else [])

end Reader

namespace Reader

theorem isOrdinary_of_isComment {t : Token} (h : t.isComment = true) : t.isOrdinary = true := by
  simp only [Token.isComment, decide_eq_true_eq] at h
  simp [Token.isOrdinary, h]

@[simp] theorem pending_dropWhile (stream : List Token) :
    pending (stream.dropWhile Token.isComment) = pending stream := by
  induction stream with
  | nil => rfl
  | cons t ts ih =>
    rw [List.dropWhile_cons]
    split
    · rename_i comment
      rw [ih, pending, pending, List.takeWhile_cons, if_pos (isOrdinary_of_isComment comment)]
      simp [comment]
    · rfl

@[simp] theorem ending_dropWhile (stream : List Token) :
    ending (stream.dropWhile Token.isComment) = ending stream := by
  induction stream with
  | nil => rfl
  | cons t ts ih =>
    rw [List.dropWhile_cons]
    split
    · rename_i comment
      rw [ih, ending, ending, List.dropWhile_cons, if_pos (isOrdinary_of_isComment comment)]
    · rfl

/-- Asking for a token: either the first of the tokens to come is given, or there is none, and the
end is reached. -/
theorem fetch_cases (r : Reader) :
    (∃ t stream, pending r.stream = t :: pending stream ∧ ending stream = ending r.stream ∧
      t.isOrdinary = true ∧
      r.fetch = (t, { r with stream := stream, last := t.loc <|> r.last })) ∨
    (∃ stream, pending r.stream = [] ∧
      r.fetch = (.finish (ending r.stream).1,
        { stream := stream, buffer := some (.finish (ending r.stream).1),
          last := (ending r.stream).1 <|> r.last, errors := r.errors ++ (ending r.stream).2 })) := by
  rw [← pending_dropWhile, ← ending_dropWhile r.stream]
  unfold fetch
  split
  · rename_i none
    rw [none]
    exact .inr ⟨[], rfl, by simp [ending]⟩
  · rename_i t ts some
    have proper : t.isComment = false := by
      have := List.head?_dropWhile_not Token.isComment r.stream
      simpa [some] using this
    rw [some]
    dsimp only
    split
    · rename_i kind
      exact .inr ⟨ts, by simp [pending, Token.isOrdinary, kind],
        by simp [ending, Token.isOrdinary, kind]⟩
    · rename_i kind
      exact .inr ⟨ts, by simp [pending, Token.isOrdinary, kind],
        by simp [ending, Token.isOrdinary, kind]⟩
    · rename_i noError noEnd
      have ordinary : t.isOrdinary = true := by
        simpa [Token.isOrdinary] using ⟨noError, noEnd⟩
      exact .inl ⟨t, ts, by simp [pending, ordinary, proper], by simp [ending, ordinary], ordinary,
        rfl⟩

theorem looked_of_some {r : Reader} {t : Token} (h : r.buffer = some t) :
    r.head = t ∧ r.looked = r := by
  simp [head, looked, peek, h]

theorem looked_of_none {r : Reader} (h : r.buffer = none) :
    r.head = r.fetch.1 ∧ r.looked = { r.fetch.2 with buffer := some r.fetch.1 } := by
  simp [head, looked, peek, h]

theorem buffer_looked (r : Reader) : r.looked.buffer = some r.head := by
  cases h : r.buffer with
  | some t => rw [(looked_of_some h).1, (looked_of_some h).2, h]
  | none => rw [(looked_of_none h).1, (looked_of_none h).2]

@[simp] theorem head_looked (r : Reader) : r.looked.head = r.head :=
  (looked_of_some r.buffer_looked).1

@[simp] theorem looked_looked (r : Reader) : r.looked.looked = r.looked :=
  (looked_of_some r.buffer_looked).2

@[simp] theorem advance_looked (r : Reader) : r.looked.advance = r.advance := by
  rw [advance, looked_looked, advance]

theorem advance_of_ordinary {r : Reader} (h : r.head.isOrdinary = true) :
    r.advance = { r.looked with buffer := none } := by
  simp [advance, next, buffer_looked, h]

theorem advance_of_finished {r : Reader} (h : r.head.isOrdinary = false) : r.advance = r.looked := by
  simp [advance, next, buffer_looked, h]

/-- Taking a token that was not looked at comes to the same. -/
theorem next_eq (r : Reader) : r.next = (r.head, r.advance) := by
  cases h : r.buffer with
  | some t =>
    obtain ⟨hhead, hlooked⟩ := looked_of_some h
    rw [hhead, advance, hlooked]
    simp [next, h]
  | none =>
    obtain ⟨hhead, hlooked⟩ := looked_of_none h
    rw [hhead, advance, hlooked]
    rcases r.fetch_cases with ⟨t, stream, -, -, ordinary, hfetch⟩ | ⟨stream, -, hfetch⟩
    · simp [next, h, hfetch, ordinary]
    · simp [next, h, hfetch, Token.finish, Token.isOrdinary]

@[simp] theorem tokens_looked (r : Reader) : r.looked.tokens = r.tokens := by
  cases h : r.buffer with
  | some t => rw [(looked_of_some h).2]
  | none =>
    rw [(looked_of_none h).2]
    rcases r.fetch_cases with ⟨t, stream, hpending, -, ordinary, hfetch⟩ | ⟨stream, hpending, hfetch⟩
    · simp [tokens, h, hfetch, hpending, ordinary]
    · simp [tokens, h, hfetch, hpending, Token.finish, Token.isOrdinary]

theorem tokens_of_ordinary {r : Reader} (h : r.head.isOrdinary = true) :
    r.tokens = r.head :: r.advance.tokens := by
  rw [← tokens_looked, advance_of_ordinary h, tokens, buffer_looked]
  simp [tokens, h]

theorem tokens_of_finished {r : Reader} (h : r.head.isOrdinary = false) : r.tokens = [] := by
  rw [← tokens_looked, tokens, buffer_looked]
  simp [h]

@[simp] theorem size_looked (r : Reader) : r.looked.size = r.size := by
  rw [size, tokens_looked, size]

theorem size_advance_lt {r : Reader} (h : r.head.isOrdinary = true) : r.advance.size < r.size := by
  rw [size, size, tokens_of_ordinary h]
  exact Nat.lt_succ_self _

theorem size_advance_le (r : Reader) : r.advance.size ≤ r.size := by
  cases h : r.head.isOrdinary with
  | true => exact Nat.le_of_lt (size_advance_lt h)
  | false => exact Nat.le_of_eq (by rw [advance_of_finished h, size_looked])

end Reader

/-- The operator that a token stands for between two operands. -/
def Op.ofKind? : Token.Kind → Option Op
  | .plus => some .add
  | .minus => some .sub
  | .multi => some .mul
  | .div => some .div
  | .and => some .and
  | .or => some .or
  | .greater => some .greater
  | .less => some .less
  | .equal => some .equal
  | _ => none

/-- How tightly an operator binds. Operators of one power group to the left. -/
def Op.power : Op → Nat
  | .or => 1
  | .and => 2
  | .greater | .less | .equal => 3
  | .add | .sub => 4
  | .mul | .div => 5
  | .unknown _ => 0

namespace Reader

/-- What parsing gives where at most `n` tokens, or `n - 1`, can be taken: a value and the reader
behind it, or an error and the reader that it left. Neither can take more tokens than that, and
behind a value there are fewer. -/
inductive Reply (α : Type) (n : Nat) where
  | done (value : α) (rest : Reader) (shorter : rest.size < n)
  | failed (error : SyntaxError) (rest : Reader) (bounded : rest.size ≤ n)

namespace Reply

variable {α β : Type} {n m : Nat}

/-- The same reply, where more tokens could have been taken. -/
def weaken (r : Reply α n) (le : n ≤ m := by omega) : Reply α m :=
  match r with
  | .done a rest h => .done a rest (by omega)
  | .failed e rest h => .failed e rest (by omega)

/-- Goes on behind a value. -/
def andThen (r : Reply α n) (next : α → (rest : Reader) → rest.size < n → Reply β (rest.size + 1))
    (le : n ≤ m := by omega) : Reply β m :=
  match r with
  | .done a rest h => (next a rest h).weaken
  | .failed e rest h => .failed e rest (by omega)

end Reply

/-- Takes the wanted token. Another token is an error, and is taken too. -/
def expect (wanted : Wanted) (r : Reader) : Reply Token r.size :=
  if h : r.next.1.kind = wanted.kind then
    .done r.next.1 r.next.2 (by
      rw [next_eq] at h ⊢
      exact size_advance_lt (by cases wanted <;> simp_all [Token.isOrdinary, Wanted.kind]))
  else
    .failed (r.next.2.errorAt r.next.1 (.expected wanted r.next.1)) r.next.2
      (by rw [next_eq]; exact r.size_advance_le)

/-- The operator that the next token stands for, if it binds tighter than `least`. -/
def operator? (least : Nat) (r : Reader) : Option Op :=
  (Op.ofKind? r.head.kind).filter fun op => least < op.power

theorem isOrdinary_of_operator? {least : Nat} {r : Reader} {op : Op}
    (h : r.operator? least = some op) : r.head.isOrdinary = true := by
  rw [operator?, Option.filter_eq_some_iff] at h
  unfold Token.isOrdinary
  cases hk : r.head.kind <;> simp_all [Op.ofKind?]

@[simp] theorem operator?_looked (least : Nat) (r : Reader) :
    r.looked.operator? least = r.operator? least := by
  simp [operator?]

/-- One more than the tokens left where operators were folded onto an expression, at most. -/
def foldBound (least : Nat) (r : Reader) : Nat :=
  if (r.operator? least).isSome then r.size else r.size + 1

theorem foldBound_le (least : Nat) (r : Reader) : r.foldBound least ≤ r.size + 1 := by
  unfold foldBound
  split <;> omega

/-- A number or a truth value. Anything else is left where it is. -/
def literal (r : Reader) : Reply Expr r.size :=
  match h : r.head.kind with
  | .number =>
    match Number.read? r.head.text with
    | none =>
      .failed (r.advance.errorAt r.head (.badNumber r.head.text)) r.advance r.size_advance_le
    | some x => .done (.number x) r.advance (size_advance_lt (by simp [Token.isOrdinary, h]))
  | .true => .done (.bool true) r.advance (size_advance_lt (by simp [Token.isOrdinary, h]))
  | .false => .done (.bool false) r.advance (size_advance_lt (by simp [Token.isOrdinary, h]))
  | _ => .failed (r.looked.errorAt r.head (.noExpression r.head)) r.looked (by simp)

mutual

/-- An operand with any number of minus signs before it. A minus sign subtracts from zero. -/
def unary (r : Reader) : Reply Expr r.size :=
  match h : r.head.kind with
  | .minus =>
    have := size_advance_lt (r := r) (by simp [Token.isOrdinary, h])
    (unary r.advance).andThen fun e r _ => .done (.binary .sub (.number 0) e) r (by omega)
  | .openParen =>
    have := size_advance_lt (r := r) (by simp [Token.isOrdinary, h])
    (expr r.advance).andThen fun e r _ =>
    (expect .closeGroup r).andThen fun _ r _ => .done e r (by omega)
  | .identifier =>
    .done (.variable r.head.text) r.advance (size_advance_lt (by simp [Token.isOrdinary, h]))
  | _ => literal r
termination_by 4 * r.size

/-- Folds onto `left` the operators that bind tighter than `least`. -/
def binary (left : Expr) (least : Nat) (r : Reader) : Reply Expr (r.foldBound least) :=
  match h : r.operator? least with
  | some op =>
    have := size_advance_lt (isOrdinary_of_operator? h)
    have : r.size ≤ r.foldBound least := by simp [foldBound, h]
    (unary r.advance).andThen fun right r _ =>
    (tighter right op.power r).andThen fun right r _ =>
    (binary (.binary op left right) least r).weaken (r.foldBound_le least)
  | none => .done left r.looked (by simp [foldBound, h])
termination_by 4 * r.size + 1

/-- Folds onto the operand of an operator what binds tighter than that, as long as there is any. -/
def tighter (right : Expr) (power : Nat) (r : Reader) : Reply Expr (r.size + 1) :=
  if h : (r.operator? power).isSome then
    have : r.looked.foldBound power = r.size := by simp [foldBound, h]
    (binary right power r.looked).andThen fun right r _ => tighter right power r
  else .done right r.looked (by simp)
termination_by 4 * r.size + 2

def expr (r : Reader) : Reply Expr r.size :=
  (unary r).andThen fun left r _ => (binary left 0 r).weaken (r.foldBound_le 0)
termination_by 4 * r.size + 1

end

/-- An expression and a semicolon. -/
def terminated (r : Reader) : Reply Expr r.size :=
  (expr r).andThen fun e r _ => (expect .semicolon r).andThen fun _ r _ => .done e r (by omega)

/-- An expression in parentheses. -/
def condition (r : Reader) : Reply Expr r.size :=
  (expect .openTest r).andThen fun _ r _ =>
  (expr r).andThen fun e r _ =>
  (expect .closeTest r).andThen fun _ r _ => .done e r (by omega)

/-- A name and what it is assigned, or an expression on its own. -/
def bare (r : Reader) : Reply Stmt r.size :=
  if h : r.head.kind = .identifier then
    have := size_advance_lt (r := r) (by simp [Token.isOrdinary, h])
    let name := r.head.text
    if h : r.advance.head.kind = .assign then
      have := size_advance_lt (r := r.advance) (by simp [Token.isOrdinary, h])
      (terminated r.advance.advance).andThen fun e r _ => .done (.assign name e) r (by omega)
    else
      have : r.advance.looked.foldBound 0 ≤ r.size := by
        have := r.advance.looked.foldBound_le 0
        simp only [size_looked] at this
        omega
      (binary (.variable name) 0 r.advance.looked).andThen fun e r _ =>
      (expect .semicolon r).andThen fun _ r _ => .done (.eval e) r (by omega)
  else
    have := r.size_looked
    (terminated r.looked).andThen fun e r _ => .done (.eval e) r (by omega)

mutual

def statement (r : Reader) : Reply Stmt r.size :=
  match h : r.head.kind with
  | .let =>
    have := size_advance_lt (r := r) (by simp [Token.isOrdinary, h])
    (expect .name r.advance).andThen fun name r _ =>
    (expect .assign r).andThen fun _ r _ =>
    (terminated r).andThen fun e r _ => .done (.declare name.text e) r (by omega)
  | .if =>
    have := size_advance_lt (r := r) (by simp [Token.isOrdinary, h])
    (condition r.advance).andThen fun test r _ =>
    (block r).andThen fun yes r _ =>
    if h : r.head.kind = .else then
      have := size_advance_lt (r := r) (by simp [Token.isOrdinary, h])
      (block r.advance).andThen fun no r _ => .done (.branch test yes (some no)) r (by omega)
    else .done (.branch test yes none) r.looked (by simp)
  | .while =>
    have := size_advance_lt (r := r) (by simp [Token.isOrdinary, h])
    (condition r.advance).andThen fun test r _ =>
    (block r).andThen fun body r _ => .done (.loop test body) r (by omega)
  | .print =>
    have := size_advance_lt (r := r) (by simp [Token.isOrdinary, h])
    (condition r.advance).andThen fun e r _ =>
    (expect .semicolon r).andThen fun _ r _ => .done (.print e) r (by omega)
  | .return =>
    have := size_advance_lt (r := r) (by simp [Token.isOrdinary, h])
    (terminated r.advance).andThen fun e r _ => .done (.result e) r (by omega)
  | _ => bare r
termination_by 3 * r.size

/-- Statements in braces. -/
def block (r : Reader) : Reply Block r.size :=
  (expect .openBlock r).andThen fun _ r _ =>
  (statements r).andThen fun body r _ => .done body r (by omega)
termination_by 3 * r.size + 2

/-- Statements up to a closing brace. -/
def statements (r : Reader) : Reply Block r.size :=
  if h : r.head.kind = .closeCurly then
    .done [] r.advance (size_advance_lt (by simp [Token.isOrdinary, h]))
  else if r.head.isOrdinary then
    have := r.size_looked
    (statement r.looked).andThen fun s r _ =>
    (statements r).andThen fun body r _ => .done (s :: body) r (by omega)
  else .failed (r.advance.errorAt r.head .unclosedBlock) r.advance r.size_advance_le
termination_by 3 * r.size + 1

end

/-- Passes over the tokens up to the first `;` or `}`, and over that one. -/
def skip (r : Reader) : Reader :=
  if _ : r.head.isOrdinary then
    if r.head.kind = .semicolon ∨ r.head.kind = .closeCurly then r.advance else skip r.advance
  else r.looked
termination_by r.size
decreasing_by exact size_advance_lt ‹_›

def note (r : Reader) (e : SyntaxError) : Reader := { r with errors := r.errors ++ [e] }

/-- Notes the error of a statement and gives the statement up. -/
def synchronize (r : Reader) (e : SyntaxError) : Reader := (r.note e).skip

theorem size_skip_le (r : Reader) : r.skip.size ≤ r.size := by
  fun_induction skip r with
  | case1 r h stop => exact r.size_advance_le
  | case2 r h stop ih => exact Nat.le_trans ih r.size_advance_le
  | case3 r h => exact Nat.le_of_eq r.size_looked

theorem size_skip_lt {r : Reader} (h : 0 < r.size) : r.skip.size < r.size := by
  have ordinary : r.head.isOrdinary = true := by
    cases finished : r.head.isOrdinary with
    | true => rfl
    | false => simp [size, tokens_of_finished finished] at h
  have lt := size_advance_lt ordinary
  have le := r.advance.size_skip_le
  rw [skip, dif_pos ordinary]
  split <;> omega

theorem size_synchronize_lt {r : Reader} {n : Nat} (e : SyntaxError) (pos : 0 < n)
    (le : r.size ≤ n) : (r.synchronize e).size < n := by
  have same : (r.note e).size = r.size := rfl
  rw [synchronize]
  rcases Nat.eq_zero_or_pos r.size with zero | more
  · have := (r.note e).size_skip_le
    omega
  · rw [← same] at more
    have := size_skip_lt more
    omega

end Reader

/-- The statements of a text that did parse, and the errors of those that did not. -/
structure Parsed where
  statements : Block
  errors : List SyntaxError

/-- Parses to the end of the tokens. -/
def Reader.run (r : Reader) : Parsed :=
  if h : r.head.isOrdinary then
    have := size_advance_lt h
    match statement r.looked with
    | .done s rest _ =>
      let more := run rest
      ⟨s :: more.statements, more.errors⟩
    | .failed e rest _ => run (rest.synchronize e)
  else ⟨[], r.looked.errors⟩
termination_by r.size
decreasing_by
  · rwa [size_looked] at *
  · exact size_synchronize_lt e (by omega) (by rwa [size_looked] at *)

namespace Parsed

/-- Parses what a scanner delivers. -/
def ofTokens (tokens : List Token) : Parsed := Reader.run { stream := tokens }

def ofSource (s : Source) : Parsed := ofTokens s.scan.stream

/-- The program of a text without errors. -/
def program (p : Parsed) : Except (List SyntaxError) Block :=
  if p.errors.isEmpty then .ok p.statements else .error p.errors

end Parsed

end LetWhile
