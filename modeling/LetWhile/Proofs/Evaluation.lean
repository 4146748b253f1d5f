import LetWhile.Eval

/-!
# The order of evaluation

The parts of an expression are worked out one after the other, operands before their operator and
the left operand before the right one, up to the first part that fails. So an expression has a value
exactly if all its parts have one, and fails as the first of them does that fails. Main result:
`Expr.eval_stops_at_first_failing`.
-/

namespace LetWhile

namespace Expr

/-- An expression and all expressions in it, operands before their operator, the left one first. -/
def parts : Expr → List Expr
  | .binary op l r => l.parts ++ (r.parts ++ [.binary op l r])
  | e => [e]

/-- Evaluates an expression and notes, in order, the parts that are worked out: a leaf when it is
read, an operator when it is applied to the values of its operands. -/
def work (env : Env) : Expr → Except Failure Value × List Expr
  | .binary op l r =>
    match l.work env with
    | (.error failure, done) => (.error failure, done)
    | (.ok a, done) =>
      match r.work env with
      | (.error failure, more) => (.error failure, done ++ more)
      | (.ok b, more) => (op.apply a b, done ++ (more ++ [.binary op l r]))
  | e => (e.eval env, [e])

def HasValue (env : Env) (e : Expr) : Prop := ∃ v, e.eval env = .ok v

variable {env : Env} {e p p' : Expr}

theorem not_hasValue {failure : Failure} (h : p.eval env = .error failure) : ¬ p.HasValue env := by
  rintro ⟨v, ok⟩
  cases ok.symm.trans h

/-- The part `p` of an expression fails, and those before it have values. -/
structure FirstFailing (env : Env) (e : Expr) (before : List Expr) (p : Expr) : Prop where
  place : ∃ after, e.parts = before ++ p :: after
  earlier : ∀ q ∈ before, q.HasValue env
  fails : ∃ failure, p.eval env = .error failure

theorem first_failing_unique {before before' after after' : List Expr}
    (earlier : ∀ q ∈ before, q.HasValue env) (earlier' : ∀ q ∈ before', q.HasValue env)
    (fails : ¬ p.HasValue env) (fails' : ¬ p'.HasValue env)
    (same : before ++ p :: after = before' ++ p' :: after') : before = before' ∧ p = p' := by
  induction before generalizing before' with
  | nil =>
    cases before' with
    | nil => exact ⟨rfl, (List.cons.inj same).1⟩
    | cons q rest =>
      cases (List.cons.inj same).1
      exact absurd (earlier' p List.mem_cons_self) fails
  | cons q rest ih =>
    cases before' with
    | nil =>
      cases (List.cons.inj same).1
      exact absurd (earlier p' List.mem_cons_self) fails'
    | cons q' rest' =>
      obtain ⟨rfl, behind⟩ := List.cons.inj same
      obtain ⟨rfl, rfl⟩ := ih (fun x mem => earlier x (List.mem_cons_of_mem _ mem))
        (fun x mem => earlier' x (List.mem_cons_of_mem _ mem)) behind
      exact ⟨rfl, rfl⟩

theorem FirstFailing.unique {before before' : List Expr} (h : FirstFailing env e before p)
    (h' : FirstFailing env e before' p') : before = before' ∧ p = p' := by
  obtain ⟨⟨after, place⟩, earlier, failure, fails⟩ := h
  obtain ⟨⟨after', place'⟩, earlier', failure', fails'⟩ := h'
  exact first_failing_unique earlier earlier' (not_hasValue fails) (not_hasValue fails')
    (place.symm.trans place')

/-- If it is an operator, its operands have values, and it is applied to them. -/
def Applied (env : Env) (p : Expr) : Prop :=
  ∀ op l r, p = .binary op l r →
    ∃ a b, l.eval env = .ok a ∧ r.eval env = .ok b ∧ p.eval env = op.apply a b

/-- All parts are worked out, and the expression has the value of the last. -/
structure Worked (env : Env) (e : Expr) (v : Value) : Prop where
  value : e.eval env = .ok v
  work : e.work env = (.ok v, e.parts)
  all : ∀ p ∈ e.parts, p.HasValue env

/-- The parts are worked out up to the first that fails, and the expression fails as it does. -/
structure Stopped (env : Env) (e : Expr) (before : List Expr) (p : Expr) (failure : Failure) :
    Prop where
  first : FirstFailing env e before p
  applied : p.Applied env
  part : p.eval env = .error failure
  value : e.eval env = .error failure
  work : e.work env = (.error failure, before ++ [p])

theorem leaf_cases (single : e.parts = [e]) (read : e.work env = (e.eval env, [e]))
    (leaf : ∀ op l r, e ≠ .binary op l r) :
    (∃ v, e.Worked env v) ∨ ∃ before p failure, e.Stopped env before p failure := by
  cases value : e.eval env with
  | ok v =>
    refine .inl ⟨v, value, by rw [read, value, single], ?_⟩
    rw [single]
    intro p mem
    rw [List.mem_singleton.1 mem]
    exact ⟨v, value⟩
  | error failure =>
    refine .inr ⟨[], e, failure, ⟨⟨[], single⟩, nofun, failure, value⟩, ?_, value, value, ?_⟩
    · intro op l r same
      exact absurd same (leaf op l r)
    · rw [read, value]
      rfl

section

variable {op : Op} {l r : Expr} {before : List Expr} {failure : Failure} {a b : Value}

theorem Stopped.on_left (h : l.Stopped env before p failure) :
    (binary op l r).Stopped env before p failure := by
  obtain ⟨⟨after, place⟩, earlier, fails⟩ := h.first
  refine ⟨⟨⟨after ++ (r.parts ++ [binary op l r]), ?_⟩, earlier, fails⟩, h.applied, h.part,
    eval_binary_of_left r h.value, ?_⟩
  · simp [parts, place]
  · rw [Expr.work, h.work]

theorem Stopped.on_right (left : l.Worked env a) (h : r.Stopped env before p failure) :
    (binary op l r).Stopped env (l.parts ++ before) p failure := by
  obtain ⟨⟨after, place⟩, earlier, fails⟩ := h.first
  refine ⟨⟨⟨after ++ [binary op l r], ?_⟩, ?_, fails⟩, h.applied, h.part,
    eval_binary_of_right left.value h.value, ?_⟩
  · simp [parts, place]
  · exact fun q mem => (List.mem_append.1 mem).elim (left.all q) (earlier q)
  · rw [Expr.work, left.work, h.work, List.append_assoc]

/-- An operator whose operands have values is applied to these, after everything else. -/
theorem binary_cases (op : Op) (left : l.Worked env a) (right : r.Worked env b) :
    (∃ v, (binary op l r).Worked env v) ∨
      ∃ before p failure, (binary op l r).Stopped env before p failure := by
  have value : (binary op l r).eval env = op.apply a b := eval_binary_of_ok left.value right.value
  have work : (binary op l r).work env = (op.apply a b, (binary op l r).parts) := by
    rw [Expr.work, left.work, right.work]
    rfl
  have split : (binary op l r).parts = (l.parts ++ r.parts) ++ [binary op l r] := by
    rw [parts, List.append_assoc]
  have operands : ∀ q ∈ l.parts ++ r.parts, q.HasValue env := fun q mem =>
    (List.mem_append.1 mem).elim (left.all q) (right.all q)
  cases applied : op.apply a b with
  | ok v =>
    rw [applied] at value work
    refine .inl ⟨v, value, work, ?_⟩
    intro q mem
    rw [split, List.mem_append, List.mem_singleton] at mem
    rcases mem with mem | rfl
    · exact operands q mem
    · exact ⟨v, value⟩
  | error failure =>
    have fails := value.trans applied
    refine .inr ⟨l.parts ++ r.parts, binary op l r, failure,
      ⟨⟨[], split⟩, operands, failure, fails⟩, ?_, fails, fails, by rw [work, applied, split]⟩
    rintro op' l' r' ⟨⟩
    exact ⟨a, b, left.value, right.value, value⟩

end

/-- An expression is worked out to its end or to its first failing part. -/
theorem work_cases (env : Env) (e : Expr) :
    (∃ v, e.Worked env v) ∨ ∃ before p failure, e.Stopped env before p failure := by
  induction e with
  | bool | number | «variable» | hole => exact leaf_cases rfl rfl nofun
  | binary op l r left right =>
    rcases left with ⟨a, left⟩ | ⟨before, p, failure, stopped⟩
    · rcases right with ⟨b, right⟩ | ⟨before, p, failure, stopped⟩
      · exact binary_cases op left right
      · exact .inr ⟨l.parts ++ before, p, failure, stopped.on_right left⟩
    · exact .inr ⟨before, p, failure, stopped.on_left⟩

theorem mem_parts_self (e : Expr) : e ∈ e.parts := by
  cases e <;> simp [parts]

/-- **The first failing part decides.** Evaluation works out the parts of an expression in order,
none twice or left out, until one fails. An expression has a value exactly if all its parts have
one. Otherwise it fails with the failure of the first part that fails: the parts before this one are
worked out and have values, it is worked out itself, and none behind it is; where it is an operator,
whichever it is, both its operands have values and the failure is that of the operator on these. -/
theorem eval_stops_at_first_failing (env : Env) (e : Expr) :
    (e.work env).1 = e.eval env ∧
    ((∃ v, e.eval env = .ok v) ↔ ∀ p ∈ e.parts, ∃ v, p.eval env = .ok v) ∧
    ((∃ v, e.eval env = .ok v) → (e.work env).2 = e.parts) ∧
    (∀ failure, e.eval env = .error failure ↔
      ∃ before p, FirstFailing env e before p ∧ p.eval env = .error failure) ∧
    (∀ before p, FirstFailing env e before p →
      (e.work env).2 = before ++ [p] ∧
      ∀ op l r, p = .binary op l r →
        ∃ a b, l.eval env = .ok a ∧ r.eval env = .ok b ∧ p.eval env = op.apply a b) := by
  rcases work_cases env e with ⟨v, worked⟩ | ⟨before, p, failure, stopped⟩
  · have never (before : List Expr) (p : Expr) : ¬ FirstFailing env e before p := by
      rintro ⟨⟨after, place⟩, -, failure, fails⟩
      exact not_hasValue fails (worked.all p (by simp [place]))
    refine ⟨by rw [worked.work, worked.value], ?_, fun _ => by rw [worked.work], ?_, ?_⟩
    · exact ⟨fun _ => worked.all, fun _ => ⟨v, worked.value⟩⟩
    · intro failure
      constructor
      · intro fails
        cases worked.value.symm.trans fails
      · rintro ⟨before, p, first, -⟩
        exact absurd first (never before p)
    · intro before p first
      exact absurd first (never before p)
  · have fails := not_hasValue stopped.value
    refine ⟨by rw [stopped.work, stopped.value], ?_, fun ok => absurd ok fails, ?_, ?_⟩
    · exact ⟨fun ok => absurd ok fails, fun all => absurd (all e e.mem_parts_self) fails⟩
    · intro failure'
      constructor
      · intro value
        cases stopped.value.symm.trans value
        exact ⟨before, p, stopped.first, stopped.part⟩
      · rintro ⟨before', p', first, part⟩
        obtain ⟨rfl, rfl⟩ := stopped.first.unique first
        rw [stopped.value, ← stopped.part, part]
    · intro before' p' first
      obtain ⟨rfl, rfl⟩ := stopped.first.unique first
      exact ⟨by rw [stopped.work], stopped.applied⟩

/-- A right operand fails: it is worked out behind the left one, though this decides the value, and
the operator is not. -/
theorem eval_stops_at_first_failing_right :
    (binary .and (.bool false) (.variable "y")).eval .root = .error (.undeclared "y") ∧
      ((binary .and (.bool false) (.variable "y")).work .root).2 =
        [.bool false, .variable "y"] := by
  have first : FirstFailing .root (binary .and (.bool false) (.variable "y")) [.bool false]
      (.variable "y") := by
    refine ⟨⟨[_], rfl⟩, ?_, .undeclared "y", rfl⟩
    intro q there
    rw [List.mem_singleton.1 there]
    exact ⟨.bool false, rfl⟩
  obtain ⟨-, -, -, failure, stops⟩ := eval_stops_at_first_failing .root _
  exact ⟨(failure (.undeclared "y")).2 ⟨_, _, first, rfl⟩, (stops _ _ first).1⟩

end Expr

end LetWhile
