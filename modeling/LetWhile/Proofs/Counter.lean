import LetWhile.Sample
import LetWhile.Proofs.Spacing
import LetWhile.Proofs.RoundTrip
import LetWhile.Proofs.Run.Fuel
import LetWhile.Proofs.Double.Arithmetic

/-!
# The counter counts

From its text on, the sample program ends with its variable at the limit, or at zero when the limit is
below zero (`Sample.counter_counts`). Three things carry this: the text is words that may stand close
together, the limit is read exactly as far as the loop goes, and a pass adds exactly one.
-/

namespace LetWhile.Sample

open Token.Word
open Grammar

/-- One more. -/
def increment : Block := [.assign "x" (.binary .add (.variable "x") (.number 1))]

/-- The program with its limit. -/
def counting (limit : Expr) : Block :=
  [.declare "x" (.number 0), .loop (.binary .less (.variable "x") limit) increment]

/-! ## The text -/

/-- The words before the limit. -/
def front : List Spaced := [
  ⟨fixed .let, [' ']⟩, ⟨name "x", [' ']⟩, ⟨fixed .assign, [' ']⟩, ⟨number 0, []⟩,
  ⟨fixed .semicolon, ['\n']⟩, ⟨fixed .while, [' ']⟩, ⟨fixed .openParen, []⟩, ⟨name "x", [' ']⟩,
  ⟨op .less, [' ']⟩]

/-- The words behind the limit. -/
def back : List Spaced := [
  ⟨fixed .closeParen, [' ']⟩, ⟨fixed .openCurly, ['\n', ' ', ' ']⟩, ⟨name "x", [' ']⟩,
  ⟨fixed .assign, [' ']⟩, ⟨name "x", [' ']⟩, ⟨op .add, [' ']⟩, ⟨number 1, []⟩,
  ⟨fixed .semicolon, ['\n']⟩, ⟨fixed .closeCurly, ['\n']⟩]

def digits (k : Nat) : Spaced := ⟨⟨.number, k.repr⟩, []⟩

def minus : Spaced := ⟨op .sub, []⟩

/-- The words of the limit. -/
def limit : Int → List Spaced
  | .ofNat k => [digits k]
  | .negSucc k => [minus, digits (k + 1)]

theorem digits_toList (k : Nat) : (digits k).word.text.toList = Nat.toDigits 10 k := Nat.toList_repr

theorem proper_digits (k : Nat) : (digits k).word.Proper := by
  refine ⟨?_, nofun⟩
  rw [digits_toList]
  exact .whole Nat.toDigits_ne_nil (fun _ => Decimal.isAsciiDigit_of_mem_toDigits) nofun

theorem chars_digits (k : Nat) : (digits k).chars = k.repr.toList := by
  rw [Spaced.chars, Token.Word.spelling, (proper_digits k).spelling_eq]
  exact List.append_nil _

theorem chars_limit (n : Int) : (limit n).flatMap Spaced.chars = (toString n).toList := by
  cases n with
  | ofNat k =>
    rw [limit, List.flatMap_singleton, chars_digits]
    rfl
  | negSucc k =>
    have sign : minus.chars = "-".toList := by decide
    rw [limit, List.flatMap_cons, List.flatMap_singleton, chars_digits, sign, ← String.toList_append]
    rfl

theorem counter_toList (n : Int) :
    (counter n).toList = (front ++ (limit n ++ back)).flatMap Spaced.chars := by
  have before : (toString "let x = 0;\nwhile (x < ").toList = front.flatMap Spaced.chars := by
    decide
  have behind : (toString ") \x7b\n  x = x + 1;\n\x7d\n").toList = back.flatMap Spaced.chars := by
    decide +kernel
  have around (a b : String) :
      (a ++ toString n ++ b).toList = a.toList ++ ((toString n).toList ++ b.toList) := by
    rw [String.toList_append, String.toList_append, List.append_assoc]
  refine (around _ _).trans ?_
  rw [before, behind, List.flatMap_append, List.flatMap_append, chars_limit]

/-- Where there are no blanks, no word goes on with the one before it. -/
theorem apart (n : Int) : (front ++ (limit n ++ back)).IsChain fun i j => i.apart j = true := by
  have inFront : front.IsChain fun i j => i.apart j = true := by decide
  have inBack : back.IsChain fun i j => i.apart j = true := by decide
  have closed (k : Nat) : (digits k).apart ⟨fixed .closeParen, [' ']⟩ = true := rfl
  have signed (k : Nat) : minus.apart (digits k) = true := by
    obtain ⟨d, ds, text⟩ := List.exists_cons_of_ne_nil (@Nat.toDigits_ne_nil k 10)
    have ends : minus.word.endsBefore d = true := rfl
    rw [Spaced.apart, digits_toList, text, List.head?_cons, Option.any_some, ends, Bool.or_true]
  refine inFront.append ?_ ?_
  · cases n with
    | ofNat k => exact .cons_cons (closed k) inBack
    | negSucc k => exact .cons_cons (signed (k + 1)) (.cons_cons (closed (k + 1)) inBack)
  · intro i last j
    obtain rfl : ⟨op .less, [' ']⟩ = i := Option.some.inj last
    intro
    rfl

/-- Any limit that is writable will do to see that the other words can be written. -/
theorem proper_around : ∀ i ∈ front ++ back, i.word.Proper := by
  have writable : Block.isWritable (counting (.number 0)) = true := by decide
  have proper := Block.proper_words _ writable
  have within : ∀ i ∈ front ++ back, i.word ∈ Block.words (counting (.number 0)) := by decide +kernel
  intro i there
  exact proper _ (within i there)

theorem proper (n : Int) : ∀ i ∈ front ++ (limit n ++ back), i.word.Proper := by
  have inLimit : ∀ i ∈ limit n, i.word.Proper := by
    cases n with
    | ofNat k => exact List.forall_mem_singleton.2 (proper_digits k)
    | negSucc k =>
      rw [limit, List.forall_mem_cons, List.forall_mem_singleton]
      exact ⟨proper_op rfl, proper_digits (k + 1)⟩
  intro i there
  rw [List.mem_append, List.mem_append] at there
  rcases there with there | there | there
  · exact proper_around i (List.mem_append_left _ there)
  · exact inLimit i there
  · exact proper_around i (List.mem_append_right _ there)

theorem blanks (n : Int) :
    ∀ i ∈ front ++ (limit n ++ back), ∀ c ∈ i.gap, Text.isSpace c = true := by
  have around : ∀ i ∈ front ++ back, i.gap.all Text.isSpace = true := by decide
  have inLimit : ∀ i ∈ limit n, i.gap = [] := by
    cases n with
    | ofNat k => exact List.forall_mem_singleton.2 rfl
    | negSucc k => exact List.forall_mem_cons.2 ⟨rfl, List.forall_mem_singleton.2 rfl⟩
  intro i there c inGap
  rw [List.mem_append, List.mem_append] at there
  rcases there with there | there | there
  · exact List.all_eq_true.1 (around i (List.mem_append_left _ there)) c inGap
  · rw [inLimit i there] at inGap
    cases inGap
  · exact List.all_eq_true.1 (around i (List.mem_append_right _ there)) c inGap

/-- The words of the counter. -/
def words (n : Int) : List Token.Word := (front ++ (limit n ++ back)).map Spaced.word

theorem counter_written (n : Int) : Written (words n) (counter n).toList := by
  rw [counter_toList]
  exact @Spaced.written_of_apart [] _ nofun (blanks n) (proper n) (apart n)

/-! ## The tree -/

/-- The words are derived as an operand, to an expression. -/
def Operand (ws : List Token.Word) (e : Expr) : Prop :=
  ∀ ts : List Token, ts.map Token.word = ws → ∃ d : Phrase .unary, d.tokens = ts ∧ d.tree = e

theorem operand_number {text : String} {x : Float} (read : Number.read? text = some x) :
    Operand [⟨.number, text⟩] (.number x) := by
  intro ts spelled
  obtain ⟨t, rfl, same⟩ := exists_single spelled
  exact ⟨.number ⟨t.val, x, t.property, same ▸ read⟩, rfl, rfl⟩

/-- A sign subtracts from zero. -/
theorem Operand.negated {ws : List Token.Word} {e : Expr} (h : Operand ws e) :
    Operand (op .sub :: ws) (.binary .sub (.number 0) e) := by
  intro ts spelled
  obtain ⟨sign, rest, rfl, -, behind⟩ := exists_terminal spelled
  obtain ⟨d, rfl, rfl⟩ := h rest behind
  exact ⟨.minus sign d, rfl, rfl⟩

theorem Operand.exists_test {ws : List Token.Word} {e : Expr} (h : Operand ws e) {ts : List Token}
    (spelled : ts.map Token.word = name "x" :: op .less :: ws) :
    ∃ d : Phrase .or, d.tokens = ts ∧ d.tree = .binary .less (.variable "x") e := by
  obtain ⟨x, rest, rfl, text, behind⟩ := exists_terminal spelled
  obtain ⟨sign, rest, rfl, -, behind⟩ := exists_terminal behind
  obtain ⟨right, rfl, rfl⟩ := h rest behind
  have fits : Tier.compare.operator? sign.val.kind = some .less := by
    rw [sign.property]
    rfl
  obtain ⟨right', rightTokens, rightTree⟩ := right.exists_loosened Tier.compare.tighter (by decide)
  obtain ⟨d, dTokens, dTree⟩ :=
    @Phrase.exists_extended .compare _ nofun (.name x) (by decide) ⟨sign.val, .less, fits⟩ right'
  obtain ⟨d', tokens, tree⟩ := d.exists_loosened .or (by decide)
  refine ⟨d', ?_, ?_⟩
  · rw [tokens, dTokens, rightTokens]
    rfl
  · rw [tree, dTree, rightTree]
    exact congrArg (Expr.binary .less · right.tree) (congrArg Expr.variable text)

theorem Operand.exists_counting {ws : List Token.Word} {e : Expr} (h : Operand ws e)
    {ts : List Token}
    (spelled : ts.map Token.word = front.map Spaced.word ++ (ws ++ back.map Spaced.word)) :
    ∃ d : Derivation, Derivation.tokens d = ts ∧ Derivation.tree d = counting e := by
  have parts : front.map Spaced.word ++ (ws ++ back.map Spaced.word) =
      Stmt.words (.declare "x" (.number 0)) ++
        fixed .while :: (parens (name "x" :: op .less :: ws) ++ braces (Block.words increment)) := by
    have before : front.map Spaced.word = Stmt.words (.declare "x" (.number 0)) ++
        [fixed .while, fixed .openParen, name "x", op .less] := rfl
    have behind : back.map Spaced.word = fixed .closeParen :: braces (Block.words increment) := rfl
    rw [before, behind]
    simp [enclosed]
  rw [parts] at spelled
  obtain ⟨first, rest, rfl, inFirst, inLoop⟩ := List.map_eq_append_iff.1 spelled
  obtain ⟨declare, rfl, declared⟩ :=
    Stmt.derived (.declare "x" (.number 0)) (by decide) first inFirst
  obtain ⟨keyword, rest, rfl, -, behind⟩ := exists_terminal inLoop
  obtain ⟨condition, block, rfl, inTest, inBlock⟩ := List.map_eq_append_iff.1 behind
  obtain ⟨left, inner, right, rfl, within⟩ := exists_enclosed inTest
  obtain ⟨test, rfl, tested⟩ := h.exists_test within
  obtain ⟨start, body, finish, rfl, looped⟩ :=
    (Block.derived increment (by decide)).exists_braces inBlock
  refine ⟨[declare, .loop keyword left test right start body finish], ?_, ?_⟩
  · simp [Derivation.tokens, Sentence.tokens]
  · simp only [counting, Derivation.tree, Sentence.tree, declared, tested, looped]

theorem proper_words (n : Int) : ∀ w ∈ words n, w.Proper := by
  intro w there
  obtain ⟨i, inside, rfl⟩ := List.mem_map.1 there
  exact proper n i inside

theorem counter_parsed (file : String) {n : Int} {e : Expr}
    (operand : Operand ((limit n).map Spaced.word) e) :
    Parsed.ofSource (.ofBytes file (counter n).toUTF8.data.toList false) = ⟨counting e, []⟩ := by
  have chars : (Source.ofBytes file (counter n).toUTF8.data.toList false).chars = (counter n).toList :=
    Text.decode_toUTF8 (counter n)
  apply Parsed.ofSource_of_written rfl (chars ▸ counter_written n) (proper_words n)
  intro ts spelled
  rw [words, List.map_append, List.map_append] at spelled
  exact operand.exists_counting spelled

/-! ## The limit -/

/-- A whole number with a clear sign. -/
abbrev wholeNumber (k : Nat) : Float := Double.ofCode false (Double.whole k)

theorem read?_repr {k : Nat} (le : k ≤ 2 ^ 64) : Number.read? k.repr = some (wholeNumber k) := by
  rw [Number.read?, Nat.toList_repr, Number.read_whole Nat.toDigits_ne_nil
    (fun _ => Decimal.isAsciiDigit_of_mem_toDigits), Nat.ofDigitChars_ten_toDigits,
    Number.nearest?]
  have same : Double.nearest (k * Nat.pow 10 (Int.toNat 0) * Double.one)
      (Nat.pow 10 (Int.toNat (-0))) = Double.whole k := by
    rw [show Nat.pow 10 (Int.toNat 0) = 1 from rfl, show Nat.pow 10 (Int.toNat (-0)) = 1 from rfl,
      Nat.mul_one]
    rfl
  rw [same, if_pos (Double.whole_lt_infinity le)]

/-- The expression of the limit. -/
def limitExpr : Int → Expr
  | .ofNat k => .number (wholeNumber k)
  | .negSucc k => .binary .sub (.number 0) (.number (wholeNumber (k + 1)))

theorem operand_limit {n : Int} (low : -2 ^ 63 ≤ n) (high : n ≤ 2 ^ 53) :
    Operand ((limit n).map Spaced.word) (limitExpr n) := by
  cases n with
  | ofNat k =>
    rw [Int.ofNat_eq_natCast] at high
    exact operand_number (read?_repr (by omega))
  | negSucc k => exact (operand_number (read?_repr (by omega))).negated

/-- The value of the limit. -/
def limitValue : Int → Float
  | .ofNat k => wholeNumber k
  | .negSucc k => Double.ofCode true (Double.whole (k + 1))

theorem zero_eq : (0 : Float) = wholeNumber 0 := by decide +kernel

theorem one_eq : (1 : Float) = wholeNumber 1 := by decide +kernel

theorem eval_limitExpr {n : Int} (low : -2 ^ 63 ≤ n) (env : Env) :
    (limitExpr n).eval env = .ok (.number (limitValue n)) := by
  cases n with
  | ofNat k => rfl
  | negSucc k =>
    have below : Double.whole (k + 1) < Double.infinity := Double.whole_lt_infinity (by omega)
    have negated := Double.zero_sub_ofCode (Double.whole_pos (Nat.succ_pos k)) below
    have zero : (0 : Float) = Double.ofCode false 0 := by decide
    have less (x : Float) : Op.sub.apply (.number 0) (.number x) = .ok (.number (0 - x)) := rfl
    rw [limitExpr, Expr.eval_binary_of_ok rfl rfl, less, zero, negated, limitValue]

/-! ## The loop -/

/-- The variable and nothing else. -/
def bound (v : Value) : Frame := Dict.empty.insert "x" v

theorem get_bound (v : Value) : (Env.mk (bound v) []).get "x" = .ok v := rfl

theorem get_bound_inside (v : Value) : (Env.mk Dict.empty [bound v]).get "x" = .ok v := rfl

theorem assign_bound_inside (v w : Value) :
    (Env.mk Dict.empty [bound v]).assign "x" w = .ok ⟨Dict.empty, [bound w]⟩ := rfl

/-- Before a pass: the variable has come to `k`. -/
def counted (room : Option Nat) (k : Nat) : State where
  env := ⟨bound (.number (wholeNumber k)), []⟩
  room := room
  past := [.looped, .declared "x" (.number 0)]

theorem add_one {k : Nat} (lt : k < 2 ^ 53) : wholeNumber k + 1 = wholeNumber (k + 1) := by
  rw [one_eq]
  apply Double.add_ofCode
  · exact Double.whole_lt_infinity (by omega)
  · exact Double.whole_lt_infinity (by omega)
  · exact Double.whole_lt_infinity (by omega)
  · rw [Double.magnitude_whole (by omega), Double.magnitude_whole (by omega),
      Double.magnitude_whole (by omega), Nat.add_mul]

/-- A pass adds one. -/
theorem exec_increment {k : Nat} (lt : k < 2 ^ 53) (fuel : Nat) (room : Option Nat) :
    Block.exec fuel increment ((counted room k).enter Dict.empty) =
      (.normal, (counted room (k + 1)).enter Dict.empty) := by
  have sum (x : Float) : Op.add.apply (.number x) (.number 1) = .ok (.number (x + 1)) := rfl
  have current : (Expr.variable "x").eval ((counted room k).enter Dict.empty).env =
      .ok (.number (wholeNumber k)) := get_bound_inside _
  have value : (Expr.binary .add (.variable "x") (.number 1)).eval
      ((counted room k).enter Dict.empty).env = .ok (.number (wholeNumber (k + 1))) := by
    rw [Expr.eval_binary_of_ok current rfl, sum, add_one lt]
  rw [increment, Block.exec, Stmt.exec, State.withValue, value]
  dsimp only
  rw [show ((counted room k).enter Dict.empty).env.assign "x" _ = _ from assign_bound_inside _ _]
  rfl

theorem wholeNumber_lt_iff {j k : Nat} (hj : j ≤ 2 ^ 53) (hk : k ≤ 2 ^ 53) :
    wholeNumber j < wholeNumber k ↔ j < k := by
  rw [Double.lt_ofCode (Double.whole_lt_infinity (by omega)) (Double.whole_lt_infinity (by omega)),
    ← Double.magnitude_strictMono.lt_iff_lt, Double.magnitude_whole hj, Double.magnitude_whole hk,
    Nat.mul_lt_mul_right Double.one_pos]

/-- The loop goes on below the limit, and ends there; it ends at zero when the limit is below. -/
theorem lt_limitValue_iff {n : Int} (low : -2 ^ 63 ≤ n) (high : n ≤ 2 ^ 53) {k : Nat}
    (le : k ≤ n.toNat) : wholeNumber k < limitValue n ↔ k < n.toNat := by
  cases n with
  | ofNat m =>
    rw [Int.ofNat_eq_natCast] at high
    rw [Int.ofNat_eq_natCast, Int.toNat_natCast] at le ⊢
    exact wholeNumber_lt_iff (by omega) (by omega)
  | negSucc m =>
    obtain rfl : k = 0 := by omega
    apply iff_of_false
    · exact Double.not_lt_negative (Double.whole_lt_infinity (by omega))
        (Double.whole_lt_infinity (by omega))
    · omega

/-- From `k` on, the loop comes to the limit. -/
theorem iterate_counts {n : Int} (low : -2 ^ 63 ≤ n) (high : n ≤ 2 ^ 53) (room : Option Nat)
    (fuel : Nat) (j : Nat) :
    ∀ {k rest : Nat}, k + j = n.toNat → j < rest →
      (counted room k).iterate (.binary .less (.variable "x") (limitExpr n))
        (fun s => Block.exec fuel increment s) rest Dict.empty = (.normal, counted room n.toNat) := by
  have test {k : Nat} (le : k ≤ n.toNat) : (Expr.binary .less (.variable "x") (limitExpr n)).test
      .loop (counted room k).env = .ok (decide (k < n.toNat)) := by
    have less (x y : Float) : Op.less.apply (.number x) (.number y) = .ok (.bool (decide (x < y))) :=
      rfl
    have value : (Expr.variable "x").eval (counted room k).env = .ok (.number (wholeNumber k)) :=
      get_bound _
    rw [Expr.test, Expr.eval_binary_of_ok value (eval_limitExpr low _), less]
    simp only [lt_limitValue_iff low high le]
  induction j with
  | zero =>
    intro k rest here more
    obtain rfl : k = n.toNat := here
    obtain ⟨rest, rfl⟩ : ∃ r, rest = r + 1 := ⟨rest - 1, by omega⟩
    rw [State.iterate, test (Nat.le_refl _), decide_eq_false (Nat.lt_irrefl _)]
  | succ j ih =>
    intro k rest here more
    obtain ⟨rest, rfl⟩ : ∃ r, rest = r + 1 := ⟨rest - 1, by omega⟩
    rw [State.iterate, test (by omega), decide_eq_true (show k < n.toNat by omega)]
    dsimp only
    rw [exec_increment (by omega)]
    exact ih (by omega) (by omega)

theorem run_counting {n : Int} (low : -2 ^ 63 ≤ n) (high : n ≤ 2 ^ 53) (room : Option Nat) {fuel : Nat}
    (more : n.toNat < fuel) :
    Block.run fuel (counting (limitExpr n)) { env := .root, room } =
      (.finished, counted room n.toNat) := by
  have declared : (Stmt.declare "x" (.number 0)).exec fuel { env := .root, room } =
      (.normal, ⟨⟨bound (.number 0), []⟩, room, [.declared "x" (.number 0)]⟩) := by
    rw [Stmt.exec]
    rfl
  have start : State.emit ⟨⟨bound (.number 0), []⟩, room, [.declared "x" (.number 0)]⟩ .looped =
      counted room 0 := by
    rw [State.emit, counted, ← zero_eq]
  rw [counting, Block.run, Block.runFrom, declared]
  dsimp only
  rw [Block.runFrom, Stmt.exec, start,
    iterate_counts low high room fuel n.toNat (Nat.zero_add _) more]
  rfl

/-- **The counter counts.** With any limit from `-2 ^ 63` to `2 ^ 53`, the text is scanned and parsed
without an error, and the program runs to its end, prints nothing and leaves one binding: the
variable, with the limit or zero, whichever is greater. It takes as many passes. -/
theorem counter_counts (file : String) {n : Int} (low : -2 ^ 63 ≤ n) (high : n ≤ 2 ^ 53) :
    ∃ (program : Block) (x : Float),
      (∃ ts, (Source.ofBytes file (counter n).toUTF8.data.toList false).scan.checked = .ok ts) ∧
      Parsed.ofSource (.ofBytes file (counter n).toUTF8.data.toList false) = ⟨program, []⟩ ∧
      x.isFinite = true ∧ Double.negative x = false ∧
      (Double.magnitude (Double.code x) : Int) = max n 0 * Double.one ∧
      n.toNat < enoughFuel ∧
      ∀ room, ∃ s, (∀ fuel, n.toNat < fuel →
          Block.run fuel program { env := .root, room } = (.finished, s)) ∧
        s.lines = [] ∧ s.env.own.entries = [("x", .number x)] ∧ s.env.outer = [] := by
  have small : n.toNat ≤ 2 ^ 53 := by omega
  have below : Double.whole n.toNat < Double.infinity := Double.whole_lt_infinity (by omega)
  have code : Double.code (wholeNumber n.toNat) = Double.whole n.toNat :=
    Double.code_ofCode false (Nat.le_of_lt below)
  refine ⟨counting (limitExpr n), wholeNumber n.toNat, ?_, counter_parsed file (operand_limit low high),
    ?_, ?_, ?_, ?_, ?_⟩
  · have chars : (Source.ofBytes file (counter n).toUTF8.data.toList false).chars =
        (counter n).toList := Text.decode_toUTF8 (counter n)
    obtain ⟨ts, last, after, scanned, -, atEnd⟩ :=
      Source.scan_written _ rfl (chars ▸ counter_written n) (proper_words n)
    exact ⟨ts, by rw [scanned, Scan.checked]; exact if_neg (by simp [atEnd])⟩
  · rw [Double.isFinite_iff, code]
    exact below
  · exact Double.negative_ofCode false (Nat.le_of_lt below)
  · rw [code, Double.magnitude_whole small, Int.natCast_mul]
    congr 1
    omega
  · rw [enoughFuel]
    omega
  · intro room
    exact ⟨counted room n.toNat, fun fuel more => run_counting low high room more, rfl, rfl, rfl⟩

/-- A limit to count to, and one below zero. -/
theorem counter_counts_both_sides :
    (∃ program x s, Parsed.ofSource (.ofBytes "counter" (counter 250).toUTF8.data.toList false) =
        ⟨program, []⟩ ∧
      Block.run enoughFuel program { env := .root } = (.finished, s) ∧
      s.env.own.entries = [("x", .number x)] ∧
      (Double.magnitude (Double.code x) : Int) = 250 * Double.one) ∧
    ∃ program x s, Parsed.ofSource (.ofBytes "counter" (counter (-3)).toUTF8.data.toList false) =
        ⟨program, []⟩ ∧
      Block.run enoughFuel program { env := .root } = (.finished, s) ∧
      s.env.own.entries = [("x", .number x)] ∧ Double.magnitude (Double.code x) = 0 := by
  constructor
  · obtain ⟨program, x, -, parsed, -, -, value, enough, ends⟩ :=
      @counter_counts "counter" 250 (by decide) (by decide)
    obtain ⟨s, run, -, entries, -⟩ := ends none
    exact ⟨program, x, s, parsed, run _ enough, entries, value⟩
  · obtain ⟨program, x, -, parsed, -, -, value, enough, ends⟩ :=
      @counter_counts "counter" (-3) (by decide) (by decide)
    obtain ⟨s, run, -, entries, -⟩ := ends none
    refine ⟨program, x, s, parsed, run _ enough, entries, ?_⟩
    rw [show max (-3 : Int) 0 = 0 from rfl, Int.zero_mul] at value
    exact Int.natCast_eq_zero.1 value

end LetWhile.Sample
