import LetWhile.Proofs.Decimal
import LetWhile.Proofs.Layout
import LetWhile.Proofs.Utf8
import LetWhile.Proofs.Grammar.Program

/-!
# Programs as texts

A program is written as words, with parentheses only where the order of its operators needs them.
However the words are laid out with blanks between them, the text parses as the program.
-/

namespace LetWhile

open Token

/-! ## Writing a program -/

/-- The spelling of a word that has only one. -/
def Token.Kind.fixed : Kind → String
  | .let => "let"
  | .if => "if"
  | .else => "else"
  | .while => "while"
  | .print => "print"
  | .return => "return"
  | .true => "true"
  | .false => "false"
  | .assign => "="
  | .semicolon => ";"
  | .openParen => "("
  | .closeParen => ")"
  | .openCurly => "\x7b"
  | .closeCurly => "\x7d"
  | _ => ""

def Op.kind : Op → Kind
  | .add => .plus
  | .sub => .minus
  | .mul => .multi
  | .div => .div
  | .and => .and
  | .or => .or
  | .greater => .greater
  | .less => .less
  | .equal => .equal
  | .unknown _ => .error

namespace Token.Word

def fixed (kind : Kind) : Word := ⟨kind, kind.fixed⟩

def name (s : String) : Word := ⟨.identifier, s⟩

def number (x : Float) : Word := ⟨.number, (Value.number x).text⟩

def op (o : Op) : Word := ⟨o.kind, o.symbol⟩

def enclosed (left right : Kind) (ws : List Word) : List Word := fixed left :: (ws ++ [fixed right])

abbrev parens : List Word → List Word := enclosed .openParen .closeParen

abbrev braces : List Word → List Word := enclosed .openCurly .closeCurly

end Token.Word

open Token.Word

/-- How tightly the operator of an expression binds; an expression without one needs no
parentheses anywhere. -/
def Expr.power : Expr → Nat
  | .binary op _ _ => op.power
  | _ => 6

/-- Parentheses stand around a left operand that binds weaker than the operator, and around a right
operand that does not bind tighter. -/
def Expr.words : Expr → List Word
  | .bool true => [fixed .true]
  | .bool false => [fixed .false]
  | .number x => [.number x]
  | .variable name => [.name name]
  | .binary op left right =>
    (if left.power < op.power then parens left.words else left.words) ++
      .op op :: (if right.power ≤ op.power then parens right.words else right.words)
  | .hole => []

mutual

/-- An `else` stands exactly where the statement has one, also an empty one. -/
def Stmt.words : Stmt → List Word
  | .declare name e => fixed .let :: .name name :: fixed .assign :: (e.words ++ [fixed .semicolon])
  | .assign name e => .name name :: fixed .assign :: (e.words ++ [fixed .semicolon])
  | .branch test yes none => fixed .if :: (parens test.words ++ braces (Block.words yes))
  | .branch test yes (some no) =>
    fixed .if :: (parens test.words ++ braces (Block.words yes) ++
      fixed .else :: braces (Block.words no))
  | .loop test body => fixed .while :: (parens test.words ++ braces (Block.words body))
  | .print e => fixed .print :: (parens e.words ++ [fixed .semicolon])
  | .eval e => e.words ++ [fixed .semicolon]
  | .result e => fixed .return :: (e.words ++ [fixed .semicolon])
  | .hole => []

def Block.words : List Stmt → List Word
  | [] => []
  | s :: rest => s.words ++ Block.words rest

end

/-- A word that is no keyword. -/
def Lexeme.isName : List Char → Bool
  | [] => false
  | c :: cs => startsWord c && cs.all inWord && !(keywords.map Prod.fst).contains (c :: cs)

/-- Names are names, numbers are finite with a clear sign, and nothing is missing or unknown. -/
def Expr.isWritable : Expr → Bool
  | .bool _ => true
  | .number x => x.isFinite && !Double.negative x
  | .variable name => Lexeme.isName name.toList
  | .binary op left right => op.isKnown && left.isWritable && right.isWritable
  | .hole => false

mutual

def Stmt.isWritable : Stmt → Bool
  | .declare name e | .assign name e => Lexeme.isName name.toList && e.isWritable
  | .branch test yes none => test.isWritable && Block.isWritable yes
  | .branch test yes (some no) => test.isWritable && Block.isWritable yes && Block.isWritable no
  | .loop test body => test.isWritable && Block.isWritable body
  | .print e | .eval e | .result e => e.isWritable
  | .hole => false

def Block.isWritable : List Stmt → Bool
  | [] => true
  | s :: rest => s.isWritable && Block.isWritable rest

end

/-! ## What is written can be scanned -/

namespace Token.Word

theorem Proper.of_table {kind : Kind} {text : String}
    (h : (text.toList, kind) ∈ Lexeme.keywords ++ Lexeme.operators) (proper : kind ≠ .lineComment) :
    Proper ⟨kind, text⟩ := by
  refine ⟨?_, proper⟩
  rcases List.mem_append.1 h with entry | entry
  · exact .keyword entry (by simp)
  · refine .operator entry proper fun e _ fits => ?_
    rw [List.append_nil] at fits
    exact fits.length_le

theorem proper_fixed {kind : Kind}
    (h : (kind.fixed.toList, kind) ∈ Lexeme.keywords ++ Lexeme.operators) : (fixed kind).Proper := by
  refine .of_table h ?_
  rintro rfl
  revert h
  decide

theorem proper_op {o : Op} (h : o.isKnown = true) : (op o).Proper := by
  cases o with
  | unknown => cases h
  | _ => exact .of_table (by decide) (by decide)

theorem proper_name {s : String} (h : Lexeme.isName s.toList = true) : (name s).Proper := by
  refine ⟨?_, nofun⟩
  rw [name]
  cases text : s.toList with
  | nil => simp [text, Lexeme.isName] at h
  | cons c cs =>
    simp only [text, Lexeme.isName, Bool.and_eq_true, List.all_eq_true, Bool.not_eq_true',
      List.contains_eq_mem, decide_eq_false_iff_not] at h
    obtain ⟨⟨first, others⟩, free⟩ := h
    exact .identifier first others free (by simp)

theorem proper_number {x : Float} (finite : x.isFinite = true) (sign : Double.negative x = false) :
    (number x).Proper := by
  refine ⟨?_, nofun⟩
  rw [number, Value.toList_text finite sign]
  rcases (Decimal.shortest (Double.code x)).positional_spelled with
    ⟨ds, spelled, nonempty, digits, -, -⟩ | ⟨ds, ps, spelled, nonempty, places, digits, decimals, -, -⟩
  · rw [spelled]
    exact .whole nonempty digits (by simp)
  · rw [spelled]
    exact .decimal nonempty digits places decimals (by simp)

theorem proper_enclosed {left right : Kind} {ws : List Word} (hl : (fixed left).Proper)
    (hr : (fixed right).Proper) (h : ∀ w ∈ ws, w.Proper) :
    ∀ w ∈ enclosed left right ws, w.Proper := by
  simp only [enclosed, List.forall_mem_cons, List.forall_mem_append]
  exact ⟨hl, h, hr, nofun⟩

theorem proper_parens {ws : List Word} (h : ∀ w ∈ ws, w.Proper) : ∀ w ∈ parens ws, w.Proper :=
  proper_enclosed (proper_fixed (by decide)) (proper_fixed (by decide)) h

theorem proper_braces {ws : List Word} (h : ∀ w ∈ ws, w.Proper) : ∀ w ∈ braces ws, w.Proper :=
  proper_enclosed (proper_fixed (by decide)) (proper_fixed (by decide)) h

theorem proper_terminated {ws : List Word} (h : ∀ w ∈ ws, w.Proper) :
    ∀ w ∈ ws ++ [fixed .semicolon], w.Proper := by
  simp only [List.forall_mem_append, List.forall_mem_singleton]
  exact ⟨h, proper_fixed (by decide)⟩

end Token.Word

theorem Expr.proper_words {e : Expr} (h : e.isWritable = true) : ∀ w ∈ e.words, w.Proper := by
  induction e with
  | bool b =>
    cases b with
    | true => exact List.forall_mem_singleton.2 (proper_fixed (by decide))
    | false => exact List.forall_mem_singleton.2 (proper_fixed (by decide))
  | number x =>
    simp only [isWritable, Bool.and_eq_true, Bool.not_eq_true'] at h
    exact List.forall_mem_singleton.2 (proper_number h.1 h.2)
  | «variable» name => exact List.forall_mem_singleton.2 (proper_name h)
  | binary op left right ihl ihr =>
    simp only [isWritable, Bool.and_eq_true] at h
    obtain ⟨⟨known, hl⟩, hr⟩ := h
    rw [words, List.forall_mem_append, List.forall_mem_cons]
    refine ⟨?_, proper_op known, ?_⟩
    · split
      · exact proper_parens (ihl hl)
      · exact ihl hl
    · split
      · exact proper_parens (ihr hr)
      · exact ihr hr
  | hole => cases h

mutual

theorem Stmt.proper_words : (s : Stmt) → s.isWritable = true → ∀ w ∈ s.words, w.Proper
  | .declare name e, h => by
    simp only [Stmt.isWritable, Bool.and_eq_true] at h
    simp only [Stmt.words, List.forall_mem_cons]
    exact ⟨proper_fixed (by decide), proper_name h.1, proper_fixed (by decide),
      proper_terminated (Expr.proper_words h.2)⟩
  | .assign name e, h => by
    simp only [Stmt.isWritable, Bool.and_eq_true] at h
    simp only [Stmt.words, List.forall_mem_cons]
    exact ⟨proper_name h.1, proper_fixed (by decide), proper_terminated (Expr.proper_words h.2)⟩
  | .branch test yes none, h => by
    simp only [Stmt.isWritable, Bool.and_eq_true] at h
    simp only [Stmt.words, List.forall_mem_cons, List.forall_mem_append]
    exact ⟨proper_fixed (by decide), proper_parens (Expr.proper_words h.1),
      proper_braces (Block.proper_words yes h.2)⟩
  | .branch test yes (some no), h => by
    simp only [Stmt.isWritable, Bool.and_eq_true] at h
    simp only [Stmt.words, List.forall_mem_cons, List.forall_mem_append]
    exact ⟨proper_fixed (by decide), ⟨proper_parens (Expr.proper_words h.1.1),
      proper_braces (Block.proper_words yes h.1.2)⟩, proper_fixed (by decide),
      proper_braces (Block.proper_words no h.2)⟩
  | .loop test body, h => by
    simp only [Stmt.isWritable, Bool.and_eq_true] at h
    simp only [Stmt.words, List.forall_mem_cons, List.forall_mem_append]
    exact ⟨proper_fixed (by decide), proper_parens (Expr.proper_words h.1),
      proper_braces (Block.proper_words body h.2)⟩
  | .print e, h => by
    rw [Stmt.words, List.forall_mem_cons]
    exact ⟨proper_fixed (by decide), proper_terminated (proper_parens (Expr.proper_words h))⟩
  | .eval e, h => proper_terminated (Expr.proper_words h)
  | .result e, h => by
    rw [Stmt.words, List.forall_mem_cons]
    exact ⟨proper_fixed (by decide), proper_terminated (Expr.proper_words h)⟩
  | .hole, h => by cases h

theorem Block.proper_words : (b : List Stmt) → Block.isWritable b = true →
    ∀ w ∈ Block.words b, w.Proper
  | [], _ => nofun
  | s :: rest, h => by
    simp only [Block.isWritable, Bool.and_eq_true] at h
    rw [Block.words, List.forall_mem_append]
    exact ⟨Stmt.proper_words s h.1, Block.proper_words rest h.2⟩

end

/-! ## What is written is derived -/

open Grammar

theorem exists_terminal {ts : List Token} {w : Word} {ws : List Word}
    (h : ts.map Token.word = w :: ws) :
    ∃ (t : Terminal w.kind) (rest : List Token), ts = t.val :: rest ∧ t.val.text = w.text ∧
      rest.map Token.word = ws := by
  obtain ⟨t, rest, rfl, rfl, more⟩ := List.map_eq_cons_iff.1 h
  exact ⟨⟨t, rfl⟩, rest, rfl, rfl, more⟩

theorem exists_single {ts : List Token} {w : Word} (h : ts.map Token.word = [w]) :
    ∃ t : Terminal w.kind, ts = [t.val] ∧ t.val.text = w.text := by
  obtain ⟨t, rest, rfl, text, empty⟩ := exists_terminal h
  obtain rfl := List.map_eq_nil_iff.1 empty
  exact ⟨t, rfl, text⟩

theorem exists_last {ts : List Token} {w : Word} {ws : List Word}
    (h : ts.map Token.word = ws ++ [w]) :
    ∃ (front : List Token) (t : Terminal w.kind), ts = front ++ [t.val] ∧
      front.map Token.word = ws := by
  obtain ⟨front, back, rfl, words, last⟩ := List.map_eq_append_iff.1 h
  obtain ⟨t, rfl, -⟩ := exists_single last
  exact ⟨front, t, rfl, words⟩

theorem exists_enclosed {left right : Kind} {ts : List Token} {ws : List Word}
    (h : ts.map Token.word = enclosed left right ws) :
    ∃ (first : Terminal left) (inner : List Token) (last : Terminal right),
      ts = first.val :: (inner ++ [last.val]) ∧ inner.map Token.word = ws := by
  obtain ⟨first, rest, rfl, -, behind⟩ := exists_terminal h
  obtain ⟨inner, last, rfl, within⟩ := exists_last behind
  exact ⟨first, inner, last, rfl, within⟩

theorem Op.operator?_kind {op : Op} (known : op.isKnown = true) :
    ∃ tier : Tier, tier ≠ .unary ∧ tier.operator? op.kind = some op ∧
      op.power = tier.level + 1 := by
  have same : Op.ofKind? op.kind = some op := by
    cases op with
    | unknown => cases known
    | _ => rfl
  obtain ⟨tier, joins, found⟩ := Tier.exists_operator same
  exact ⟨tier, joins, found, (Tier.operator?_eq_some_iff.1 found).2⟩

namespace Expr

/-- The words of an expression are derived, in a tier at least as tight as its operator. -/
def Derived (e : Expr) : Prop :=
  ∀ ts : List Token, ts.map Token.word = e.words →
    ∃ (tier : Tier) (d : Phrase tier), e.power ≤ tier.level + 1 ∧ d.tokens = ts ∧ d.tree = e

theorem Derived.exists_parens {e : Expr} (derived : e.Derived) {ts : List Token}
    (spelled : ts.map Token.word = parens e.words) :
    ∃ (left : Terminal .openParen) (d : Phrase .or) (right : Terminal .closeParen),
      ts = left.val :: (d.tokens ++ [right.val]) ∧ d.tree = e := by
  obtain ⟨left, inner, right, rfl, within⟩ := exists_enclosed spelled
  obtain ⟨tier, d, -, rfl, rfl⟩ := derived inner within
  obtain ⟨d', htokens, htree⟩ := d.exists_loosened .or (Nat.zero_le _)
  exact ⟨left, d', right, by rw [htokens], htree⟩

/-- An operand is derived in a tier if it stands in parentheses or binds tighter than the tier. -/
theorem Derived.exists_operand {e : Expr} (derived : e.Derived) (tier : Tier) {loose : Prop}
    [Decidable loose] (tight : ¬ loose → tier.level < e.power) {ts : List Token}
    (spelled : ts.map Token.word = if loose then parens e.words else e.words) :
    ∃ d : Phrase tier, d.tokens = ts ∧ d.tree = e := by
  split at spelled
  · obtain ⟨left, d, right, rfl, rfl⟩ := derived.exists_parens spelled
    obtain ⟨d', htokens, htree⟩ := (Phrase.group left d right).exists_loosened tier (by
      cases tier <;> decide)
    exact ⟨d', htokens, htree⟩
  · rename_i bare
    obtain ⟨tier', d, power, rfl, rfl⟩ := derived ts spelled
    have := tight bare
    exact d.exists_loosened tier (by omega)

theorem derived_binary {op : Op} {left right : Expr} (known : op.isKnown = true)
    (hl : left.Derived) (hr : right.Derived) : (binary op left right).Derived := by
  intro ts spelled
  obtain ⟨tier, joins, found, power⟩ := op.operator?_kind known
  have level := Tier.level_tighter joins
  obtain ⟨front, back, rfl, front_eq, back_eq⟩ := List.map_eq_append_iff.1 spelled
  obtain ⟨t, rest, rfl, -, rest_eq⟩ := exists_terminal back_eq
  -- A chain grows at its end: the left operand may be a chain of the same tier, the right one not.
  obtain ⟨dl, hdl, rfl⟩ := hl.exists_operand tier (by omega) front_eq
  obtain ⟨dr, hdr, rfl⟩ := hr.exists_operand tier.tighter (by omega) rest_eq
  have fits : tier.operator? t.val.kind = some op := by rw [t.property, ← found]; rfl
  obtain ⟨d, htokens, htree⟩ :=
    dl.exists_extended joins (Nat.le_refl _) ⟨t.val, op, fits⟩ dr
  refine ⟨tier, d, Nat.le_of_eq power, ?_, htree⟩
  rw [htokens, hdl, hdr]

theorem derived {e : Expr} (h : e.isWritable = true) : e.Derived := by
  induction e with
  | bool b =>
    intro ts spelled
    cases b with
    | true =>
      obtain ⟨t, rfl, -⟩ := exists_single spelled
      exact ⟨.unary, .trueWord t, Nat.le_refl _, rfl, rfl⟩
    | false =>
      obtain ⟨t, rfl, -⟩ := exists_single spelled
      exact ⟨.unary, .falseWord t, Nat.le_refl _, rfl, rfl⟩
  | number x =>
    simp only [isWritable, Bool.and_eq_true, Bool.not_eq_true'] at h
    intro ts spelled
    obtain ⟨t, rfl, text⟩ := exists_single spelled
    have read : Number.read? t.val.text = some x := by
      rw [text]
      exact Value.read?_text h.1 h.2
    exact ⟨.unary, .number ⟨t.val, x, t.property, read⟩, Nat.le_refl _, rfl, rfl⟩
  | «variable» name =>
    intro ts spelled
    obtain ⟨t, rfl, text⟩ := exists_single spelled
    exact ⟨.unary, .name t, Nat.le_refl _, rfl, congrArg Expr.variable text⟩
  | binary op left right ihl ihr =>
    simp only [isWritable, Bool.and_eq_true] at h
    exact derived_binary h.1.1 (ihl h.1.2) (ihr h.2)
  | hole => cases h

theorem exists_terminated {e : Expr} (h : e.isWritable = true) {ts : List Token}
    (spelled : ts.map Token.word = e.words ++ [fixed .semicolon]) :
    ∃ (d : Phrase .or) (stop : Terminal .semicolon), ts = d.tokens ++ [stop.val] ∧ d.tree = e := by
  obtain ⟨front, stop, rfl, within⟩ := exists_last spelled
  obtain ⟨tier, d, -, rfl, rfl⟩ := derived h front within
  obtain ⟨d', htokens, htree⟩ := d.exists_loosened .or (Nat.zero_le _)
  exact ⟨d', stop, by rw [htokens], htree⟩

end Expr

/-- The words of a block are derived. -/
def Block.Derived (b : Block) : Prop :=
  ∀ ts : List Token, ts.map Token.word = Block.words b →
    ∃ d : Derivation, Derivation.tokens d = ts ∧ Derivation.tree d = b

theorem Block.Derived.exists_braces {b : Block} (derived : Block.Derived b) {ts : List Token}
    (spelled : ts.map Token.word = braces (Block.words b)) :
    ∃ (start : Terminal .openCurly) (d : Derivation) (finish : Terminal .closeCurly),
      ts = start.val :: (Derivation.tokens d ++ [finish.val]) ∧ Derivation.tree d = b := by
  obtain ⟨start, inner, finish, rfl, within⟩ := exists_enclosed spelled
  obtain ⟨d, rfl, rfl⟩ := derived inner within
  exact ⟨start, d, finish, rfl, rfl⟩

/-- The words of a statement are derived. -/
def Stmt.Derived (s : Stmt) : Prop :=
  ∀ ts : List Token, ts.map Token.word = s.words →
    ∃ d : Sentence, d.tokens = ts ∧ d.tree = s

namespace Stmt

theorem derived_declare {name : String} {e : Expr} (h : e.isWritable = true) :
    (declare name e).Derived := by
  intro ts spelled
  rw [words] at spelled
  obtain ⟨keyword, _, rfl, -, spelled₁⟩ := exists_terminal spelled
  obtain ⟨target, _, rfl, text, spelled₂⟩ := exists_terminal spelled₁
  obtain ⟨sign, _, rfl, -, spelled₃⟩ := exists_terminal spelled₂
  obtain ⟨value, stop, rfl, rfl⟩ := Expr.exists_terminated h spelled₃
  exact ⟨.declare keyword target sign value stop, rfl, congrArg (declare · value.tree) text⟩

theorem derived_assign {name : String} {e : Expr} (h : e.isWritable = true) :
    (assign name e).Derived := by
  intro ts spelled
  rw [words] at spelled
  obtain ⟨target, _, rfl, text, spelled₁⟩ := exists_terminal spelled
  obtain ⟨sign, _, rfl, -, spelled₂⟩ := exists_terminal spelled₁
  obtain ⟨value, stop, rfl, rfl⟩ := Expr.exists_terminated h spelled₂
  exact ⟨.assign target sign value stop, rfl, congrArg (assign · value.tree) text⟩

theorem derived_branch {test : Expr} {yes : Block} (h : test.isWritable = true)
    (hyes : Block.Derived yes) : (branch test yes none).Derived := by
  intro ts spelled
  rw [words] at spelled
  obtain ⟨keyword, _, rfl, -, behind⟩ := exists_terminal spelled
  obtain ⟨condition, block, rfl, inTest, inBlock⟩ := List.map_eq_append_iff.1 behind
  obtain ⟨left, d, right, rfl, rfl⟩ := (Expr.derived h).exists_parens inTest
  obtain ⟨start, body, finish, rfl, rfl⟩ := hyes.exists_braces inBlock
  exact ⟨.branch keyword left d right start body finish, by simp [Sentence.tokens], rfl⟩

theorem derived_branchElse {test : Expr} {yes no : Block} (h : test.isWritable = true)
    (hyes : Block.Derived yes) (hno : Block.Derived no) : (branch test yes (some no)).Derived := by
  intro ts spelled
  rw [words] at spelled
  obtain ⟨keyword, _, rfl, -, behind⟩ := exists_terminal spelled
  obtain ⟨front, back, rfl, inFront, inBack⟩ := List.map_eq_append_iff.1 behind
  obtain ⟨condition, block, rfl, inTest, inYes⟩ := List.map_eq_append_iff.1 inFront
  obtain ⟨other, _, rfl, -, inNo⟩ := exists_terminal inBack
  obtain ⟨left, d, right, rfl, rfl⟩ := (Expr.derived h).exists_parens inTest
  obtain ⟨start, body, finish, rfl, rfl⟩ := hyes.exists_braces inYes
  obtain ⟨start', body', finish', rfl, rfl⟩ := hno.exists_braces inNo
  exact ⟨.branchElse keyword left d right start body finish other start' body' finish',
    by simp [Sentence.tokens], rfl⟩

theorem derived_loop {test : Expr} {body : Block} (h : test.isWritable = true)
    (hbody : Block.Derived body) : (loop test body).Derived := by
  intro ts spelled
  rw [words] at spelled
  obtain ⟨keyword, _, rfl, -, behind⟩ := exists_terminal spelled
  obtain ⟨condition, block, rfl, inTest, inBlock⟩ := List.map_eq_append_iff.1 behind
  obtain ⟨left, d, right, rfl, rfl⟩ := (Expr.derived h).exists_parens inTest
  obtain ⟨start, body, finish, rfl, rfl⟩ := hbody.exists_braces inBlock
  exact ⟨.loop keyword left d right start body finish, by simp [Sentence.tokens], rfl⟩

theorem derived_print {e : Expr} (h : e.isWritable = true) : (print e).Derived := by
  intro ts spelled
  rw [words] at spelled
  obtain ⟨keyword, _, rfl, -, behind⟩ := exists_terminal spelled
  obtain ⟨front, stop, rfl, within⟩ := exists_last behind
  obtain ⟨left, d, right, rfl, rfl⟩ := (Expr.derived h).exists_parens within
  exact ⟨.print keyword left d right stop, by simp [Sentence.tokens], rfl⟩

theorem derived_eval {e : Expr} (h : e.isWritable = true) : (eval e).Derived := by
  intro ts spelled
  obtain ⟨value, stop, rfl, rfl⟩ := Expr.exists_terminated h spelled
  exact ⟨.eval value stop, rfl, rfl⟩

theorem derived_result {e : Expr} (h : e.isWritable = true) : (result e).Derived := by
  intro ts spelled
  rw [words] at spelled
  obtain ⟨keyword, _, rfl, -, behind⟩ := exists_terminal spelled
  obtain ⟨value, stop, rfl, rfl⟩ := Expr.exists_terminated h behind
  exact ⟨.result keyword value stop, rfl, rfl⟩

end Stmt

theorem Block.derived_cons {s : Stmt} {rest : Block} (hs : s.Derived) (hrest : Block.Derived rest) :
    Block.Derived (s :: rest) := by
  intro ts spelled
  rw [Block.words] at spelled
  obtain ⟨front, back, rfl, inFirst, inRest⟩ := List.map_eq_append_iff.1 spelled
  obtain ⟨d, rfl, rfl⟩ := hs front inFirst
  obtain ⟨ds, rfl, rfl⟩ := hrest back inRest
  exact ⟨d :: ds, rfl, rfl⟩

mutual

theorem Stmt.derived : (s : Stmt) → s.isWritable = true → s.Derived
  | .declare _ _, h => by
    simp only [Stmt.isWritable, Bool.and_eq_true] at h
    exact Stmt.derived_declare h.2
  | .assign _ _, h => by
    simp only [Stmt.isWritable, Bool.and_eq_true] at h
    exact Stmt.derived_assign h.2
  | .branch _ yes none, h => by
    simp only [Stmt.isWritable, Bool.and_eq_true] at h
    exact Stmt.derived_branch h.1 (Block.derived yes h.2)
  | .branch _ yes (some no), h => by
    simp only [Stmt.isWritable, Bool.and_eq_true] at h
    exact Stmt.derived_branchElse h.1.1 (Block.derived yes h.1.2) (Block.derived no h.2)
  | .loop _ body, h => by
    simp only [Stmt.isWritable, Bool.and_eq_true] at h
    exact Stmt.derived_loop h.1 (Block.derived body h.2)
  | .print _, h => Stmt.derived_print h
  | .eval _, h => Stmt.derived_eval h
  | .result _, h => Stmt.derived_result h
  | .hole, h => by cases h

theorem Block.derived : (b : List Stmt) → Block.isWritable b = true → Block.Derived b
  | [], _ => fun ts spelled => ⟨[], (List.map_eq_nil_iff.1 spelled).symm, rfl⟩
  | s :: rest, h => by
    simp only [Block.isWritable, Bool.and_eq_true] at h
    exact Block.derived_cons (Stmt.derived s h.1) (Block.derived rest h.2)

end

/-- A text of words that are derived, to a program, parses as the program. -/
theorem Parsed.ofSource_of_written {s : Source} (reads : s.fails = false) {ws : List Word}
    {program : Block} (written : Written ws s.chars) (proper : ∀ w ∈ ws, w.Proper)
    (derived : ∀ ts : List Token, ts.map Token.word = ws →
      ∃ d : Derivation, Derivation.tokens d = ts ∧ Derivation.tree d = program) :
    Parsed.ofSource s = ⟨program, []⟩ := by
  obtain ⟨ts, last, after, scanned, spelled, atEnd⟩ := s.scan_written reads written proper
  have ordinary : ∀ t ∈ ts, t.isOrdinary = true ∧ t.isComment = false := by
    intro t there
    have : t.word ∈ ws := spelled ▸ List.mem_map_of_mem there
    exact (proper _ this).ordinary
  obtain ⟨d, rfl, rfl⟩ := derived ts spelled
  rw [Parsed.ofSource, scanned, Scan.stream, Parsed.ofTokens_append_end ordinary atEnd]
  exact Parsed.ofFeed_complete d rfl

/-- **A program is read back from its text.** Whatever blanks separate the words of a program, the
text parses without an error, to the program. Its names have to be names, its numbers finite with a
clear sign and its operators those of the language. -/
theorem Block.parsed_from_words (file : String) {program : Block} {text : String}
    (writable : Block.isWritable program = true) (laid : Layout (Block.words program) text.toList) :
    Parsed.ofSource (.ofBytes file text.toUTF8.data.toList false) = ⟨program, []⟩ := by
  have proper := Block.proper_words program writable
  have chars : (Source.ofBytes file text.toUTF8.data.toList false).chars = text.toList :=
    Text.decode_toUTF8 text
  exact Parsed.ofSource_of_written rfl (chars ▸ laid.written proper) proper
    (Block.derived program writable)

/-- A program with operands that need parentheses, operands that need none, and an empty `else`. -/
def countdown : Block := [
  .declare "x" (.binary .mul (.binary .add (.number 1.5) (.variable "y")) (.number 2)),
  .loop (.binary .less (.number 0) (.variable "x"))
    [.assign "x" (.binary .sub (.binary .sub (.variable "x") (.number 1))
      (.binary .sub (.variable "y") (.variable "z")))],
  .branch (.binary .or (.binary .and (.bool true) (.variable "a")) (.variable "b"))
    [.print (.variable "x")] (some [])]

theorem Block.parsed_from_words_countdown :
    Block.isWritable countdown = true ∧
    String.ofList (Layout.line (Block.words countdown)) =
      " let x = ( 1.5 + y ) * 2 ; while ( 0 < x ) \x7b x = x - 1 - ( y - z ) ; \x7d" ++
      " if ( true && a || b ) \x7b print ( x ) ; \x7d else \x7b \x7d" ∧
    Parsed.ofSource (.ofBytes "countdown"
      (String.ofList (Layout.line (Block.words countdown))).toUTF8.data.toList false) =
      ⟨countdown, []⟩ := by
  have writable : Block.isWritable countdown = true := by decide +kernel
  refine ⟨writable, by decide +kernel, Block.parsed_from_words "countdown" writable ?_⟩
  rw [String.toList_ofList]
  exact Layout.of_line _

end LetWhile
