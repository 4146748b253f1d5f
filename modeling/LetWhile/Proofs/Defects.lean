import LetWhile.Failure

/-!
# Defects

A tree that was not parsed may have holes and operators that the language does not know. Here they
are listed in the order in which one comes to them, operands before their operator. A tree is whole
exactly if it has none (`Block.isWhole_iff`).
-/

namespace LetWhile

def Op.defects : Op → List Defect
  | .unknown symbol => [.unknownOp symbol]
  | _ => []

def Expr.defects : Expr → List Defect
  | .bool _ | .number _ | .variable _ => []
  | .binary op l r => l.defects ++ (r.defects ++ op.defects)
  | .hole => [.exprHole]

mutual

def Stmt.defects : Stmt → List Defect
  | .declare _ e | .assign _ e | .print e | .eval e | .result e => e.defects
  | .branch e yes none => e.defects ++ Block.defects yes
  | .branch e yes (some no) => e.defects ++ (Block.defects yes ++ Block.defects no)
  | .loop e body => e.defects ++ Block.defects body
  | .hole => [.stmtHole]

def Block.defects : List Stmt → List Defect
  | [] => []
  | s :: rest => s.defects ++ Block.defects rest

end

/-- An absent `else` has the defects of an empty block. -/
theorem Stmt.defects_branch (test : Expr) (yes : Block) (no : Option Block) :
    (Stmt.branch test yes no).defects =
      test.defects ++ (Block.defects yes ++ Block.defects (no.getD [])) := by
  cases no <;> simp [Stmt.defects, Block.defects]

theorem Op.isKnown_iff (op : Op) : op.isKnown ↔ op.defects = [] := by
  cases op <;> simp [Op.isKnown, Op.defects]

theorem Expr.isWhole_iff (e : Expr) : e.isWhole ↔ e.defects = [] := by
  induction e with
  | binary op l r left right =>
    simp only [Expr.isWhole, Expr.defects, Bool.and_eq_true, List.append_eq_nil_iff, left, right,
      op.isKnown_iff]
    constructor
    · rintro ⟨⟨known, wl⟩, wr⟩
      exact ⟨wl, wr, known⟩
    · rintro ⟨wl, wr, known⟩
      exact ⟨⟨known, wl⟩, wr⟩
  | bool | number | «variable» | hole => simp [Expr.isWhole, Expr.defects]

mutual

theorem Stmt.isWhole_iff : (s : Stmt) → (s.isWhole ↔ s.defects = [])
  | .declare _ e | .assign _ e | .print e | .eval e | .result e => e.isWhole_iff
  | .branch e yes none => by
    simp only [Stmt.isWhole, Stmt.defects, Bool.and_eq_true, List.append_eq_nil_iff,
      e.isWhole_iff, Block.isWhole_iff yes]
  | .branch e yes (some no) => by
    simp only [Stmt.isWhole, Stmt.defects, Bool.and_eq_true, List.append_eq_nil_iff,
      e.isWhole_iff, Block.isWhole_iff yes, Block.isWhole_iff no, and_assoc]
  | .loop e body => by
    simp only [Stmt.isWhole, Stmt.defects, Bool.and_eq_true, List.append_eq_nil_iff,
      e.isWhole_iff, Block.isWhole_iff body]
  | .hole => by simp [Stmt.isWhole, Stmt.defects]

theorem Block.isWhole_iff : (b : List Stmt) → (Block.isWhole b ↔ Block.defects b = [])
  | [] => by simp [Block.isWhole, Block.defects]
  | s :: rest => by
    simp only [Block.isWhole, Block.defects, Bool.and_eq_true, List.append_eq_nil_iff,
      s.isWhole_iff, Block.isWhole_iff rest]

end

end LetWhile
