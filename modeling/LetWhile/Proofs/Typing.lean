import LetWhile.Eval

/-!
# Types of expressions

The variants of the variables decide the type of an expression, without a look at their values. An
expression of a type has a value of that type, or it divides by zero; one without a type has no
value (`Expr.eval_follows_types`).
-/

namespace LetWhile

open Value (Variant)

/-- The type of an operation on operands of these types. -/
def Op.type? : Op → Option Variant → Option Variant → Option Variant
  | .add, some .number, some .number => some .number
  | .sub, some .number, some .number => some .number
  | .mul, some .number, some .number => some .number
  | .div, some .number, some .number => some .number
  | .greater, some .number, some .number => some .boolean
  | .less, some .number, some .number => some .boolean
  | .equal, some .number, some .number => some .boolean
  | .and, some .boolean, some .boolean => some .boolean
  | .or, some .boolean, some .boolean => some .boolean
  | _, _, _ => none

/-- The type of an expression over names of these variants. -/
def Expr.type? (names : String → Option Variant) : Expr → Option Variant
  | .bool _ => some .boolean
  | .number _ => some .number
  | .variable name => names name
  | .binary op l r => op.type? (l.type? names) (r.type? names)
  | .hole => none

/-- The variants of the names that can be seen. A name that is not bound has none. -/
def Env.variants (env : Env) (name : String) : Option Variant :=
  (find? name env.frames).map Value.variant

/-! ## Operators -/

namespace Op

theorem operands_of_type? {op : Op} {left right : Option Variant} {t : Variant}
    (h : op.type? left right = some t) : ∃ a b, left = some a ∧ right = some b := by
  cases left with
  | none => cases op <;> cases h
  | some a =>
    cases right with
    | none => cases a <;> cases op <;> cases h
    | some b => exact ⟨a, b, rfl, rfl⟩

/-- What an operator does with two operands: the variants decide whether they fit, and what comes
out. Only a division can fail then. -/
theorem apply_cases {op : Op} (known : op.isKnown = true) (l r : Value) :
    (∃ v, op.apply l r = .ok v ∧ op.type? l.variant r.variant = some v.variant) ∨
    (op.apply l r = .error .divisionByZero ∧ (op.type? l.variant r.variant).isSome) ∨
    (op.apply l r = .error (.typeMismatch op l r) ∧ op.type? l.variant r.variant = none) := by
  cases l with
  | bool a =>
    cases r with
    | bool b =>
      cases op with
      | and | or => exact .inl ⟨_, rfl, rfl⟩
      | unknown => cases known
      | _ => exact .inr (.inr ⟨rfl, rfl⟩)
    | number y => cases op <;> exact .inr (.inr ⟨rfl, rfl⟩)
  | number x =>
    cases r with
    | bool b => cases op <;> exact .inr (.inr ⟨rfl, rfl⟩)
    | number y =>
      cases op with
      | and | or => exact .inr (.inr ⟨rfl, rfl⟩)
      | unknown => cases known
      | div =>
        cases zero : y == 0 with
        | true => exact .inr (.inl ⟨by simp [apply, arithmetic, zero], rfl⟩)
        | false => exact .inl ⟨.number (x / y), by simp [apply, arithmetic, zero], rfl⟩
      | _ => exact .inl ⟨_, rfl, rfl⟩

end Op

/-! ## One evaluation -/

namespace Expr

theorem eval_variable_cases (env : Env) (name : String) :
    (∃ v, (Expr.variable name).eval env = .ok v ∧ env.variants name = some v.variant) ∨
    ((Expr.variable name).eval env = .error (.undeclared name) ∧ env.variants name = none) := by
  rw [eval, Env.get, Env.variants]
  cases Env.find? name env.frames with
  | some v => exact .inl ⟨v, rfl, rfl⟩
  | none => exact .inr ⟨rfl, rfl⟩

/-- A value has the type of its expression. -/
theorem type?_of_eval {env : Env} {e : Expr} (whole : e.isWhole = true) {v : Value}
    (h : e.eval env = .ok v) : e.type? env.variants = some v.variant := by
  induction e generalizing v with
  | bool b | number x => cases h; rfl
  | «variable» name =>
    rcases eval_variable_cases env name with ⟨v', ok, bound⟩ | ⟨failed, -⟩
    · cases ok.symm.trans h
      exact bound
    · cases failed.symm.trans h
  | binary op l r left right =>
    simp only [isWhole, Bool.and_eq_true] at whole
    obtain ⟨⟨known, wl⟩, wr⟩ := whole
    cases hl : l.eval env with
    | error f => cases (eval_binary_of_left r hl).symm.trans h
    | ok a =>
      cases hr : r.eval env with
      | error f => cases (eval_binary_of_right hl hr).symm.trans h
      | ok b =>
        rw [eval_binary_of_ok hl hr] at h
        rw [type?, left wl hl, right wr hr]
        rcases op.apply_cases known a b with ⟨v', ok, fits⟩ | ⟨failed, -⟩ | ⟨failed, -⟩
        · cases ok.symm.trans h
          exact fits
        · cases failed.symm.trans h
        · cases failed.symm.trans h
  | hole => cases whole

/-- An expression of a type fails for nothing but a division by zero. -/
theorem eval_of_type? {env : Env} {e : Expr} (whole : e.isWhole = true) {t : Variant}
    (h : e.type? env.variants = some t) :
    (∃ v, e.eval env = .ok v) ∨ e.eval env = .error .divisionByZero := by
  induction e generalizing t with
  | bool b | number x => exact .inl ⟨_, rfl⟩
  | «variable» name =>
    rcases eval_variable_cases env name with ⟨v, ok, -⟩ | ⟨-, unbound⟩
    · exact .inl ⟨v, ok⟩
    · cases unbound.symm.trans h
  | binary op l r left right =>
    simp only [isWhole, Bool.and_eq_true] at whole
    obtain ⟨⟨known, wl⟩, wr⟩ := whole
    rw [type?] at h
    obtain ⟨tl, tr, typedl, typedr⟩ := Op.operands_of_type? h
    rcases left wl typedl with ⟨a, hl⟩ | hl
    · rcases right wr typedr with ⟨b, hr⟩ | hr
      · rw [type?_of_eval wl hl, type?_of_eval wr hr] at h
        rw [eval_binary_of_ok hl hr]
        rcases op.apply_cases known a b with ⟨v, ok, -⟩ | ⟨failed, -⟩ | ⟨-, unfit⟩
        · exact .inl ⟨v, ok⟩
        · exact .inr failed
        · cases unfit.symm.trans h
      · exact .inr (eval_binary_of_right hl hr)
    · exact .inr (eval_binary_of_left r hl)
  | hole => cases whole

end Expr

/-! ## Two evaluations -/

/-- The same name is missing, or the same operator has operands of the same wrong types. -/
inductive Failure.SameMistake : Failure → Failure → Prop where
  | undeclared (name : String) : SameMistake (.undeclared name) (.undeclared name)
  | typeMismatch (op : Op) {l r l' r' : Value} (left : l.variant = l'.variant)
      (right : r.variant = r'.variant) :
      SameMistake (.typeMismatch op l r) (.typeMismatch op l' r')

/-- Two values of one variant, or the same mistake twice. -/
inductive Value.Parallel : Except Failure Value → Except Failure Value → Prop where
  | ok {v v' : Value} (same : v.variant = v'.variant) : Parallel (.ok v) (.ok v')
  | error {f f' : Failure} (same : f.SameMistake f') : Parallel (.error f) (.error f')

theorem Op.apply_parallel {op : Op} (known : op.isKnown = true) {l r l' r' : Value}
    (left : l.variant = l'.variant) (right : r.variant = r'.variant)
    (h : op.apply l r ≠ .error .divisionByZero) (h' : op.apply l' r' ≠ .error .divisionByZero) :
    Value.Parallel (op.apply l r) (op.apply l' r') := by
  have fits : op.type? l.variant r.variant = op.type? l'.variant r'.variant := by rw [left, right]
  rcases op.apply_cases known l r with ⟨v, ok, type⟩ | ⟨divided, -⟩ | ⟨failed, type⟩
  · rcases op.apply_cases known l' r' with ⟨v', ok', type'⟩ | ⟨divided, -⟩ | ⟨-, type'⟩
    · rw [ok, ok']
      exact .ok (Option.some.inj (type.symm.trans (fits.trans type')))
    · exact absurd divided h'
    · cases type.symm.trans (fits.trans type')
  · exact absurd divided h
  · rcases op.apply_cases known l' r' with ⟨v', -, type'⟩ | ⟨divided, -⟩ | ⟨failed', -⟩
    · cases type.symm.trans (fits.trans type')
    · exact absurd divided h'
    · rw [failed, failed']
      exact .error (.typeMismatch op left right)

/-- Values of the same variants make the same evaluation, up to its values. -/
theorem Expr.eval_parallel {e : Expr} (whole : e.isWhole = true) {env env' : Env}
    (same : ∀ name, env.variants name = env'.variants name)
    (h : e.eval env ≠ .error .divisionByZero) (h' : e.eval env' ≠ .error .divisionByZero) :
    Value.Parallel (e.eval env) (e.eval env') := by
  induction e with
  | bool b | number x => exact .ok rfl
  | «variable» name =>
    have bound := same name
    rcases eval_variable_cases env name with ⟨v, ok, type⟩ | ⟨failed, unbound⟩
    · rcases eval_variable_cases env' name with ⟨v', ok', type'⟩ | ⟨-, unbound'⟩
      · rw [ok, ok']
        exact .ok (Option.some.inj (type.symm.trans (bound.trans type')))
      · cases type.symm.trans (bound.trans unbound')
    · rcases eval_variable_cases env' name with ⟨v', -, type'⟩ | ⟨failed', -⟩
      · cases unbound.symm.trans (bound.trans type')
      · rw [failed, failed']
        exact .error (.undeclared name)
  | binary op l r left right =>
    simp only [isWhole, Bool.and_eq_true] at whole
    obtain ⟨⟨known, wl⟩, wr⟩ := whole
    have first := left wl (fun f => h (eval_binary_of_left r f))
      (fun f => h' (eval_binary_of_left r f))
    generalize hl : l.eval env = x at first
    generalize hl' : l.eval env' = x' at first
    cases first with
    | error mistake =>
      rw [eval_binary_of_left r hl, eval_binary_of_left r hl']
      exact .error mistake
    | ok sameLeft =>
      have second := right wr (fun f => h (eval_binary_of_right hl f))
        (fun f => h' (eval_binary_of_right hl' f))
      generalize hr : r.eval env = y at second
      generalize hr' : r.eval env' = y' at second
      cases second with
      | error mistake =>
        rw [eval_binary_of_right hl hr, eval_binary_of_right hl' hr']
        exact .error mistake
      | ok sameRight =>
        rw [eval_binary_of_ok hl hr] at h ⊢
        rw [eval_binary_of_ok hl' hr'] at h' ⊢
        exact Op.apply_parallel known sameLeft sameRight h h'
  | hole => cases whole

/-- **Expressions are typed by the variants of their variables.** An expression of a type has a
value of that variant or divides by zero, and one without a type fails. Where two environments give
every name the same variant, and nothing is divided by zero, both evaluations give values of one
variant, or both fail for the same name or the same operator. -/
theorem Expr.eval_follows_types {e : Expr} (whole : e.isWhole = true) :
    (∀ (env : Env) (t : Variant), e.type? env.variants = some t →
      (∃ v, e.eval env = .ok v ∧ v.variant = t) ∨ e.eval env = .error .divisionByZero) ∧
    (∀ env : Env, e.type? env.variants = none → ∃ f, e.eval env = .error f) ∧
    (∀ env env' : Env, (∀ name, env.variants name = env'.variants name) →
      e.eval env ≠ .error .divisionByZero → e.eval env' ≠ .error .divisionByZero →
      Value.Parallel (e.eval env) (e.eval env')) := by
  refine ⟨?_, ?_, fun env env' same h h' => eval_parallel whole same h h'⟩
  · intro env t typed
    rcases eval_of_type? whole typed with ⟨v, ok⟩ | divided
    · exact .inl ⟨v, ok, Option.some.inj ((type?_of_eval whole ok).symm.trans typed)⟩
    · exact .inr divided
  · intro env untyped
    cases h : e.eval env with
    | error f => exact ⟨f, rfl⟩
    | ok v => cases (type?_of_eval whole h).symm.trans untyped

/-- Compares a quotient. -/
def reciprocalBelow : Expr :=
  .binary .less (.binary .div (.number 1) (.variable "x")) (.variable "y")

/-- Binds the names of the comparison, the first one in a frame further out. -/
def Env.comparing (x : Float) (y : Value) : Env :=
  ⟨Dict.empty.insert "y" y, [Dict.empty.insert "x" (.number x)]⟩

theorem Env.variants_comparing (x x' : Float) {y y' : Value} (same : y.variant = y'.variant)
    (name : String) : (comparing x y).variants name = (comparing x' y').variants name := by
  by_cases hy : name = "y"
  · simp [comparing, variants, find?, frames, Dict.contains_eq_isSome, Dict.get?_insert, hy, same]
  · by_cases hx : name = "x" <;>
      simp [comparing, variants, find?, frames, Dict.contains_eq_isSome, Dict.get?_insert, hy, hx,
        Value.variant]

theorem Expr.reciprocalBelow_divides {x : Float} (nonzero : (x == 0) = false) (y : Value) :
    reciprocalBelow.eval (Env.comparing x y) ≠ .error .divisionByZero := by
  have divisor : (Expr.variable "x").eval (Env.comparing x y) = .ok (.number x) := rfl
  have bound : (Expr.variable "y").eval (Env.comparing x y) = .ok y := rfl
  have quotient : (binary .div (number 1) (.variable "x")).eval (Env.comparing x y) =
      .ok (.number (1 / x)) := by
    rw [eval_binary_of_ok rfl divisor]
    simp [Op.apply, Op.arithmetic, nonzero]
  rw [reciprocalBelow, eval_binary_of_ok quotient bound]
  cases y <;> nofun

/-- A comparison that divides by zero, one with a boolean, two comparisons of numbers and two with
booleans. -/
theorem Expr.eval_follows_types_quotient :
    reciprocalBelow.isWhole = true ∧
    (reciprocalBelow.type? (Env.comparing 0 (.number 1)).variants = some .boolean ∧
      ((∃ v, reciprocalBelow.eval (Env.comparing 0 (.number 1)) = .ok v ∧ v.variant = .boolean) ∨
        reciprocalBelow.eval (Env.comparing 0 (.number 1)) = .error .divisionByZero)) ∧
    (reciprocalBelow.type? (Env.comparing 0 (.bool true)).variants = none ∧
      ∃ f, reciprocalBelow.eval (Env.comparing 0 (.bool true)) = .error f) ∧
    Value.Parallel (reciprocalBelow.eval (Env.comparing 2 (.number 1)))
      (reciprocalBelow.eval (Env.comparing 4 (.number 0))) ∧
    Value.Parallel (reciprocalBelow.eval (Env.comparing 2 (.bool true)))
      (reciprocalBelow.eval (Env.comparing 4 (.bool false))) := by
  have whole : reciprocalBelow.isWhole = true := by decide
  obtain ⟨typed, untyped, parallel⟩ := Expr.eval_follows_types whole
  have boolean : reciprocalBelow.type? (Env.comparing 0 (.number 1)).variants = some .boolean := by decide
  have none : reciprocalBelow.type? (Env.comparing 0 (.bool true)).variants = none := by decide
  have two := reciprocalBelow_divides (x := 2) (by decide +kernel)
  have four := reciprocalBelow_divides (x := 4) (by decide +kernel)
  exact ⟨whole, ⟨boolean, typed _ _ boolean⟩, ⟨none, untyped _ none⟩,
    parallel _ _ (Env.variants_comparing 2 4 rfl) (two _) (four _),
    parallel _ _ (Env.variants_comparing 2 4 rfl) (two _) (four _)⟩

end LetWhile
