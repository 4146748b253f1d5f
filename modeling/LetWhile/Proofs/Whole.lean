import LetWhile.Proofs.Code.Emission
import LetWhile.Proofs.Grammar.Program
import LetWhile.Proofs.Run.Fuel

/-!
# Whole trees

Every statement that is parsed is whole, whatever the tokens are (`Parsed.isWhole_ofTokens`), and a
whole tree can be run and lowered: neither comes to a place where the tree has a hole or an unknown
operator. Lowering goes through all of a tree, so it fails exactly if there is a defect anywhere, and
with the first one (`Code.lower_eq_error_iff`). Main result: `defects_never_come_from_text`.
-/

namespace LetWhile

/-! ## Parsing -/

namespace Grammar

theorem Joint.isKnown {tier : Tier} (joint : Joint tier) : joint.op.isKnown := by
  obtain ⟨token, op, fits⟩ := joint
  unfold Tier.operator? at fits
  split at fits <;> cases fits <;> rfl

mutual

theorem Phrase.isWhole_tree {tier : Tier} : (d : Phrase tier) → d.tree.isWhole
  | .name _ | .number _ | .trueWord _ | .falseWord _ => rfl
  | .minus _ operand => by
    simp [Phrase.tree, Expr.isWhole, Op.isKnown, operand.isWhole_tree]
  | .group _ inner _ => inner.isWhole_tree
  | .chain _ _ first more => more.isWhole_fold first.isWhole_tree

theorem Links.isWhole_fold {tier : Tier} : (more : Links tier) → {left : Expr} → left.isWhole →
    (more.fold left).isWhole
  | .nil _, _, whole => whole
  | .cons _ joint operand more, _, whole =>
    more.isWhole_fold (by simp [Expr.isWhole, joint.isKnown, whole, operand.isWhole_tree])

end

mutual

theorem Sentence.isWhole_tree : (d : Sentence) → d.tree.isWhole
  | .declare _ _ _ value _ | .assign _ _ value _ | .print _ _ value _ _ | .result _ value _
  | .eval value _ => value.isWhole_tree
  | .branch _ _ test _ _ yes _ => by
    simp [Sentence.tree, Stmt.isWhole, test.isWhole_tree, Derivation.isWhole_tree yes]
  | .branchElse _ _ test _ _ yes _ _ _ no _ => by
    simp [Sentence.tree, Stmt.isWhole, test.isWhole_tree, Derivation.isWhole_tree yes,
      Derivation.isWhole_tree no]
  | .loop _ _ test _ _ body _ => by
    simp [Sentence.tree, Stmt.isWhole, test.isWhole_tree, Derivation.isWhole_tree body]

theorem Derivation.isWhole_tree : (d : List Sentence) → Block.isWhole (Derivation.tree d)
  | [] => rfl
  | s :: rest => by
    simp [Derivation.tree, Block.isWhole, s.isWhole_tree, Derivation.isWhole_tree rest]

end

end Grammar

namespace Parsed

/-- The statements that do parse are whole, whether or not there are others that do not. -/
theorem isWhole_ofFeed (report : List SyntaxError) (f : Feed) :
    Block.isWhole (ofFeed report f).statements := by
  fun_induction ofFeed report f with
  | case1 => rfl
  | case2 f _ s rest _ hs more ih =>
    obtain ⟨d, -, rfl⟩ := (Parse.statement_sound f).1 s rest (by rw [hs]; rfl)
    rw [Block.isWhole, d.isWhole_tree, Bool.true_and]
    exact ih
  | case3 => rfl
  | case4 f _ e rest _ hs _ more ih => exact ih

theorem isWhole_ofTokens (tokens : List Token) : Block.isWhole (ofTokens tokens).statements := by
  rw [ofTokens_eq_ofFeed]
  exact isWhole_ofFeed _ _

end Parsed

/-! ## Running -/

theorem Op.apply_ne_defect {op : Op} (known : op.isKnown) (l r : Value) (d : Defect) :
    op.apply l r ≠ .error (.defect d) := by
  cases op with
  | unknown symbol => cases known
  | div =>
    cases l <;> cases r <;> simp only [Op.apply, Op.arithmetic]
    · split <;> nofun
    all_goals nofun
  | _ => cases l <;> cases r <;> nofun

theorem Env.get_ne_defect (env : Env) (name : String) (d : Defect) :
    env.get name ≠ .error (.defect d) := by
  unfold Env.get
  split <;> nofun

theorem Env.declare_ne_defect (env : Env) (name : String) (v : Value) (d : Defect) :
    env.declare name v ≠ .error (.defect d) := by
  unfold Env.declare Frame.declare
  by_cases bound : env.own.contains name <;> simp [bound]

theorem Env.assign_ne_defect (env : Env) (name : String) (v : Value) (d : Defect) :
    env.assign name v ≠ .error (.defect d) := by
  unfold Env.assign
  split <;> nofun

theorem Expr.eval_ne_defect {e : Expr} (whole : e.isWhole) (env : Env) (d : Defect) :
    e.eval env ≠ .error (.defect d) := by
  induction e with
  | bool b => nofun
  | number x => nofun
  | «variable» name => exact env.get_ne_defect name d
  | binary op l r left right =>
    simp only [Expr.isWhole, Bool.and_eq_true] at whole
    obtain ⟨⟨known, wl⟩, wr⟩ := whole
    rw [Expr.eval]
    cases hl : l.eval env with
    | error failure => exact fun h => left wl (hl.trans h)
    | ok a =>
      cases hr : r.eval env with
      | error failure => exact fun h => right wr (hr.trans h)
      | ok b => exact op.apply_ne_defect known a b d
  | hole => cases whole

theorem Expr.test_ne_defect {e : Expr} (whole : e.isWhole) (construct : Construct) (env : Env)
    (d : Defect) : e.test construct env ≠ .error (.defect d) := by
  unfold Expr.test
  split
  · nofun
  · nofun
  · rename_i failure hfailure
    rintro ⟨⟩
    exact eval_ne_defect whole env d hfailure

/-- Never fails for a defect. -/
def Flawless (run : State → Ending × State) : Prop := ∀ s d, (run s).1 ≠ .failed (.defect d)

theorem State.withValue_ne_defect {s : State} {e : Expr} (whole : e.isWhole) {d : Defect}
    {next : Value → Ending × State} (h : ∀ v, (next v).1 ≠ .failed (.defect d)) :
    (s.withValue e next).1 ≠ .failed (.defect d) := by
  unfold State.withValue
  split
  · exact h _
  · rename_i failure hfailure
    rintro ⟨⟩
    exact e.eval_ne_defect whole s.env d hfailure

theorem State.update_ne_defect {s : State} {r : Except Failure Env} {d : Defect}
    (h : r ≠ .error (.defect d)) : (s.update r).1 ≠ .failed (.defect d) := by
  cases r with
  | ok env => nofun
  | error failure =>
    rintro ⟨⟩
    exact h rfl

theorem State.print_ne_defect (s : State) (v : Value) (d : Defect) :
    (s.print v).1 ≠ .failed (.defect d) := by
  unfold State.print
  split <;> nofun

theorem State.iterate_flawless {test : Expr} (whole : test.isWhole)
    {body : State → Ending × State} (h : Flawless body) (fuel : Nat) (inner : Frame) :
    Flawless (State.iterate test body fuel inner) := by
  induction fuel generalizing inner with
  | zero => nofun
  | succ fuel ih =>
    intro s d
    rw [State.iterate]
    split
    · rename_i failure hfailure
      rintro ⟨⟩
      exact test.test_ne_defect whole .loop s.env d hfailure
    · simp
    · split
      · exact ih _ _ d
      · rename_i ending s' _ hbody
        have passed := h (s.enter inner) d
        rwa [hbody] at passed

theorem Stmt.branch_flawless {fuel : Nat} {test : Expr} (whole : test.isWhole) {yes : Block}
    {no : Option Block} (inYes : Flawless (Block.exec fuel yes))
    (inNo : Flawless (Block.exec fuel (no.getD []))) :
    Flawless ((Stmt.branch test yes no).exec fuel) := by
  intro s d
  cases htest : test.test .branch s.env with
  | error failure =>
    rw [exec_branch_failed fuel yes no htest]
    rintro ⟨⟩
    exact test.test_ne_defect whole .branch s.env d htest
  | ok taken =>
    rw [exec_branch fuel yes no htest]
    cases taken with
    | true => exact inYes _ d
    | false => exact inNo _ d

mutual

theorem Stmt.exec_flawless (fuel : Nat) : (stmt : Stmt) → stmt.isWhole → Flawless (stmt.exec fuel)
  | .declare name e, whole => fun s d => by
    simp only [Stmt.exec]
    exact State.withValue_ne_defect whole fun v =>
      State.update_ne_defect (s.env.declare_ne_defect name v d)
  | .assign name e, whole => fun s d => by
    simp only [Stmt.exec]
    exact State.withValue_ne_defect whole fun v =>
      State.update_ne_defect (s.env.assign_ne_defect name v d)
  | .branch test yes none, whole => by
    rw [Stmt.isWhole, Bool.and_eq_true] at whole
    exact Stmt.branch_flawless whole.1 (Block.exec_flawless fuel yes whole.2) nofun
  | .branch test yes (some no), whole => by
    rw [Stmt.isWhole, Bool.and_eq_true, Bool.and_eq_true] at whole
    exact Stmt.branch_flawless whole.1.1 (Block.exec_flawless fuel yes whole.1.2)
      (Block.exec_flawless fuel no whole.2)
  | .loop test body, whole => fun s d => by
    rw [Stmt.isWhole, Bool.and_eq_true] at whole
    simp only [Stmt.exec]
    exact State.iterate_flawless whole.1 (Block.exec_flawless fuel body whole.2) fuel _ _ d
  | .print e, whole => fun s d => by
    simp only [Stmt.exec]
    exact State.withValue_ne_defect whole fun v => s.print_ne_defect v d
  | .eval e, whole => fun s d => by
    simp only [Stmt.exec]
    exact State.withValue_ne_defect whole nofun
  | .result e, whole => fun s d => by
    simp only [Stmt.exec]
    exact State.withValue_ne_defect whole nofun

theorem Block.exec_flawless (fuel : Nat) : (b : List Stmt) → Block.isWhole b →
    Flawless (Block.exec fuel b)
  | [], _ => nofun
  | stmt :: rest, whole => fun s d => by
    rw [Block.isWhole, Bool.and_eq_true] at whole
    have first := stmt.exec_flawless fuel whole.1 s d
    rw [Block.exec]
    split
    · exact Block.exec_flawless fuel rest whole.2 _ d
    · exact first

end

/-! ## Lowering -/

namespace Code

open Gen

theorem body_refuses (program : Block) : Refuses (body program) (Block.defects program) := by
  refine .after (total_newLabel _) fun start => .after (total_emit _) fun _ =>
    .opened fun made => ?_
  apply (statements_refuse (covers_tableFrom made [] program)).bind_total
  exact fun _ => .bind (total_emit _) fun _ => total_pure start

/-- A program is refused for its first defect, and for nothing else. -/
theorem lower_eq_error_iff {program : Block} {error : LowerError} :
    lower program = .error error ↔
      ∃ d, (Block.defects program).head? = some d ∧ error = .defect d := by
  have refuses := body_refuses program
  unfold lower
  cases hdefects : Block.defects program with
  | nil =>
    rw [hdefects] at refuses
    obtain ⟨e, he⟩ := refuses {}
    simp [he, Except.map]
  | cons d rest =>
    rw [hdefects] at refuses
    simp [refuses {}, Except.map, eq_comm]

theorem lower_refused_iff (program : Block) :
    (∃ d, lower program = .error (.defect d)) ↔ ¬ Block.isWhole program := by
  rw [Block.isWhole_iff]
  constructor
  · rintro ⟨d, h⟩ none
    obtain ⟨d', first, -⟩ := lower_eq_error_iff.1 h
    rw [none] at first
    cases first
  · intro some
    obtain ⟨d, rest, hdefects⟩ := List.exists_cons_of_ne_nil some
    exact ⟨d, lower_eq_error_iff.2 ⟨d, by rw [hdefects]; rfl, rfl⟩⟩

end Code

/-- **No text leads to a defect.** Whatever the tokens are, the statements that parse are whole, also
where others do not parse. A whole expression is evaluated and a whole statement is run without
coming to a defect, in any bindings and with any fuel, and a whole program is lowered. A tree that
was not parsed may have defects; lowering fails exactly if there is one anywhere in the tree, and
with the first of them. It never lacks the slot of a declaration. -/
theorem defects_never_come_from_text :
    (∀ tokens, Block.isWhole (Parsed.ofTokens tokens).statements) ∧
    (∀ (e : Expr) (env : Env) d, e.isWhole → e.eval env ≠ .error (.defect d)) ∧
    (∀ (stmt : Stmt) fuel (s : State) d, stmt.isWhole → (stmt.exec fuel s).1 ≠ .failed (.defect d)) ∧
    (∀ program, Block.isWhole program → ∃ f, Code.lower program = .ok f) ∧
    (∀ program, (∃ d, Code.lower program = .error (.defect d)) ↔ ¬ Block.isWhole program) ∧
    (∀ program d, Code.lower program = .error (.defect d) ↔
      (Block.defects program).head? = some d) ∧
    (∀ program name, Code.lower program ≠ .error (.noSlot name)) := by
  refine ⟨Parsed.isWhole_ofTokens, ?_, ?_, ?_, Code.lower_refused_iff, ?_, ?_⟩
  · intro e env d whole
    exact e.eval_ne_defect whole env d
  · intro stmt fuel s d whole
    exact stmt.exec_flawless fuel whole s d
  · intro program whole
    obtain ⟨inside, -, h⟩ := Code.lower_emits whole
    exact ⟨_, by rw [Code.lower, h]; rfl⟩
  · intro program d
    rw [Code.lower_eq_error_iff]
    simp
  · intro program name h
    obtain ⟨d, -, same⟩ := Code.lower_eq_error_iff.1 h
    cases same

/-- A hole that no run comes to, and an unknown operator above it. -/
def unreached : Block := [.result (.bool true), .print (.binary (.unknown "%") .hole (.bool true))]

/-- The statement behind a broken one is whole and is lowered; a program is refused for what stands
behind its end. -/
theorem defects_never_come_from_text_unreached :
    let tokens : List Token := [⟨.let, "let", none⟩, ⟨.semicolon, ";", none⟩,
      ⟨.semicolon, ";", none⟩, ⟨.return, "return", none⟩, ⟨.true, "true", none⟩,
      ⟨.semicolon, ";", none⟩]
    (∃ f, Code.lower (Parsed.ofTokens tokens).statements = .ok f) ∧
    (Stmt.exec 0 (.result (.bool true)) { env := .root }).1 ≠ .failed (.defect .exprHole) ∧
    Code.lower unreached = .error (.defect .exprHole) := by
  intro tokens
  obtain ⟨parsed, -, runs, lowered, -, refused, -⟩ := defects_never_come_from_text
  exact ⟨lowered _ (parsed tokens), runs _ 0 _ _ rfl, (refused unreached _).2 rfl⟩

end LetWhile
