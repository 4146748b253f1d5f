import LetWhile.Env

namespace LetWhile

/-- An arithmetic operation or comparison. Division by either zero fails. -/
def Op.arithmetic (op : Op) (a b : Float) : Except Failure Value :=
  match op with
  | .add => .ok (.number (a + b))
  | .sub => .ok (.number (a - b))
  | .mul => .ok (.number (a * b))
  | .div => if b == 0 then .error .divisionByZero else .ok (.number (a / b))
  | .greater => .ok (.bool (decide (b < a)))
  | .less => .ok (.bool (decide (a < b)))
  | .equal => .ok (.bool (a == b))
  | .and | .or => .error (.typeMismatch op (.number a) (.number b))
  | .unknown symbol => .error (.defect (.unknownOp symbol))

/-- Neither kind of value stands in for the other. -/
def Op.apply : Op → Value → Value → Except Failure Value
  | .and, .bool a, .bool b => .ok (.bool (a && b))
  | .or, .bool a, .bool b => .ok (.bool (a || b))
  | op, .number a, .number b => op.arithmetic a b
  | op, l, r => .error (.typeMismatch op l r)

/-- Both operands are evaluated before they are looked at, the left one first. -/
def Expr.eval (env : Env) : Expr → Except Failure Value
  | .bool b => .ok (.bool b)
  | .number x => .ok (.number x)
  | .variable name => env.get name
  | .binary op l r =>
    match l.eval env with
    | .error failure => .error failure
    | .ok a =>
      match r.eval env with
      | .error failure => .error failure
      | .ok b => op.apply a b
  | .hole => .error (.defect .exprHole)

section

variable {env : Env} {op : Op} {l r : Expr} {a b : Value} {f : Failure}

theorem Expr.eval_binary_of_ok (hl : l.eval env = .ok a) (hr : r.eval env = .ok b) :
    (binary op l r).eval env = op.apply a b := by
  rw [eval, hl, hr]

theorem Expr.eval_binary_of_left (r : Expr) (hl : l.eval env = .error f) :
    (binary op l r).eval env = .error f := by
  rw [eval, hl]

theorem Expr.eval_binary_of_right (hl : l.eval env = .ok a) (hr : r.eval env = .error f) :
    (binary op l r).eval env = .error f := by
  rw [eval, hl, hr]

end

/-- The truth of a test. -/
def Expr.test (construct : Construct) (env : Env) (e : Expr) : Except Failure Bool :=
  match e.eval env with
  | .ok (.bool b) => .ok b
  | .ok v => .error (.notBoolean construct v)
  | .error failure => .error failure

end LetWhile
