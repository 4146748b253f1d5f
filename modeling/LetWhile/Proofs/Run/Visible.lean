import LetWhile.Proofs.Run.Frames

/-!
# What a statement sees

A statement sees of its frames only what they make of its names: what its own frame binds them to,
and what looking them up further out gives. Two runs that start alike in this sense stay alike and
do the same. Main result: `Stmt.exec_sees_names`.

Behind a block, the frames of two runs must be told apart again into the own frame and those around
it; that they can be is due to what a block may do to the frames around it (`Env.Alike.leave`).
-/

namespace LetWhile

def Expr.names : Expr → List String
  | .variable name => [name]
  | .binary _ l r => l.names ++ r.names
  | .bool _ | .number _ | .hole => []

mutual

/-- The names in a statement: those it declares, assigns or reads, in the blocks inside it too. -/
def Stmt.names : Stmt → List String
  | .declare name e | .assign name e => name :: e.names
  | .branch test yes none => test.names ++ Block.names yes
  | .branch test yes (some no) => test.names ++ (Block.names yes ++ Block.names no)
  | .loop test body => test.names ++ Block.names body
  | .print e | .eval e | .result e => e.names
  | .hole => []

def Block.names : List Stmt → List String
  | [] => []
  | s :: rest => s.names ++ Block.names rest

end

namespace Env

/-- Own frames that agree on some names, and frames around them that give the same for each. -/
def Alike (names : List String) (e e' : Env) : Prop :=
  ∀ x ∈ names, e.own.get? x = e'.own.get? x ∧ find? x e.outer = find? x e'.outer

theorem find?_cons (x : String) (f : Frame) (rest : List Frame) :
    find? x (f :: rest) = (f.get? x).or (find? x rest) := by
  rw [find?, Dict.contains_eq_isSome]
  cases f.get? x <;> rfl

/-- Looking a name up depends on the bindings of the name only. -/
theorem find?_eq_of_value? {x : String} {frames frames' : List Frame}
    (length : frames.length = frames'.length)
    (h : ∀ k, value? x frames k = value? x frames' k) : find? x frames = find? x frames' := by
  induction frames generalizing frames' with
  | nil =>
    rw [List.length_eq_zero_iff.1 length.symm]
  | cons f rest ih =>
    cases frames' with
    | nil => cases length
    | cons f' rest' =>
      have first : f.get? x = f'.get? x := h 0
      have others : find? x rest = find? x rest' := by
        apply ih (Nat.succ.inj length)
        intro k
        have next := h (k + 1)
        rwa [value?_succ, value?_succ] at next
      rw [find?_cons, find?_cons, first, others]

theorem isSome_update? (x : String) (v : Value) (frames : List Frame) :
    (update? x v frames).isSome = (find? x frames).isSome := by
  induction frames with
  | nil => rfl
  | cons f rest ih =>
    rw [update?, find?_cons, Dict.contains_eq_isSome]
    cases f.get? x with
    | none => simpa using ih
    | some w => rfl

theorem find?_of_update? {x : String} {v : Value} {frames frames' : List Frame}
    (h : update? x v frames = some frames') (y : String) :
    find? y frames' = if y = x then some v else find? y frames := by
  induction frames generalizing frames' with
  | nil => cases h
  | cons f rest ih =>
    rw [update?, Dict.contains_eq_isSome] at h
    cases hf : f.get? x with
    | some w =>
      rw [hf] at h
      cases h
      rw [find?_cons, find?_cons, Dict.get?_insert]
      by_cases same : y = x <;> simp [same]
    | none =>
      rw [hf] at h
      obtain ⟨rest', hrest, rfl⟩ := Option.map_eq_some_iff.1 h
      rw [find?_cons, find?_cons, ih hrest]
      by_cases same : y = x
      · simp [same, hf]
      · simp [same]

/-- An assignment goes to the own frame if that binds the name, and to the frames around it if not. -/
theorem assign_eq (e : Env) (x : String) (v : Value) :
    e.assign x v = if (e.own.get? x).isSome then .ok ⟨e.own.insert x v, e.outer⟩ else
      match update? x v e.outer with
      | some outer => .ok ⟨e.own, outer⟩
      | none => .error (.undeclared x) := by
  rw [assign, frames, update?, Dict.contains_eq_isSome]
  cases e.own.get? x with
  | some w => rfl
  | none => cases update? x v e.outer <;> rfl

namespace Evolves

variable {new targets : List String} {e e' : Env} {x : String}

theorem unbound (h : Evolves [] targets e.frames e'.frames) (unbound : e.own.get? x = none) :
    e'.own.get? x = none := by
  cases bound : e'.own.get? x with
  | none => rfl
  | some v =>
    rcases h.gains x (Option.isSome_of_eq_some bound) with before | fresh
    · simp [frames, unbound] at before
    · simp at fresh

theorem find?_outer (h : Evolves new targets e.frames e'.frames)
    (bound : (e.own.get? x).isSome) : find? x e'.outer = find? x e.outer := by
  apply find?_eq_of_value?
  · simpa [frames] using h.length
  · intro k
    have same := h.shadowed x 0 (k + 1) (Nat.succ_pos k) bound
    rwa [frames, frames, value?_succ, value?_succ] at same

/-- A block that was entered can be left. -/
theorem frames_leave {inner : Frame} (h : Evolves new targets (e.enter inner).frames e'.frames) :
    e'.leave.frames = e'.outer := by
  have length := h.length
  rw [Env.leave]
  split
  · rename_i outer
    simp [frames, outer, enter] at length
  · rename_i own outer heq
    rw [heq, frames]

end Evolves

namespace Alike

variable {names : List String} {e e' : Env}

theorem find? (h : Alike names e e') {x : String} (mem : x ∈ names) :
    Env.find? x e.frames = Env.find? x e'.frames := by
  obtain ⟨own, outer⟩ := h x mem
  rw [frames, frames, find?_cons, find?_cons, own, outer]

theorem get (h : Alike names e e') {x : String} (mem : x ∈ names) : e.get x = e'.get x := by
  rw [Env.get, Env.get, h.find? mem]

theorem eval (h : Alike names e e') {expr : Expr} (subset : expr.names ⊆ names) :
    expr.eval e = expr.eval e' := by
  induction expr with
  | bool b => rfl
  | number x => rfl
  | «variable» x => exact h.get (subset (by simp [Expr.names]))
  | binary op l r left right =>
    rw [Expr.names, List.append_subset] at subset
    rw [Expr.eval, Expr.eval, left subset.1, right subset.2]
  | hole => rfl

theorem test (h : Alike names e e') {expr : Expr} (subset : expr.names ⊆ names)
    (construct : Construct) : expr.test construct e = expr.test construct e' := by
  rw [Expr.test, Expr.test, h.eval subset]

theorem enter (h : Alike names e e') {inner inner' : Frame}
    (same : ∀ x ∈ names, inner.get? x = inner'.get? x) :
    Alike names (e.enter inner) (e'.enter inner') :=
  fun x mem => ⟨same x mem, h.find? mem⟩

/-- Binding a name fails in both, for the same reason, or leaves both alike. -/
theorem declare (h : Alike names e e') {x : String} (mem : x ∈ names) (v : Value) :
    (∃ failure, e.declare x v = .error failure ∧ e'.declare x v = .error failure) ∨
    (∃ d d', e.declare x v = .ok d ∧ e'.declare x v = .ok d' ∧ Alike names d d') := by
  have same : e.own.contains x = e'.own.contains x := by
    rw [Dict.contains_eq_isSome, Dict.contains_eq_isSome, (h x mem).1]
  cases there : e'.own.contains x with
  | true => simp [Env.declare, Frame.declare, same, there]
  | false =>
    refine .inr ⟨⟨e.own.insert x v, e.outer⟩, ⟨e'.own.insert x v, e'.outer⟩,
      by simp [Env.declare, Frame.declare, same, there],
      by simp [Env.declare, Frame.declare, there], ?_⟩
    intro y mem
    rw [Dict.get?_insert, Dict.get?_insert, (h y mem).1]
    exact ⟨rfl, (h y mem).2⟩

theorem assign (h : Alike names e e') {x : String} (mem : x ∈ names) (v : Value) :
    (∃ failure, e.assign x v = .error failure ∧ e'.assign x v = .error failure) ∨
    (∃ d d', e.assign x v = .ok d ∧ e'.assign x v = .ok d' ∧ Alike names d d') := by
  obtain ⟨own, outer⟩ := h x mem
  rw [assign_eq, assign_eq, ← own]
  cases e.own.get? x with
  | some w =>
    refine .inr ⟨_, _, rfl, rfl, ?_⟩
    intro y mem
    rw [Dict.get?_insert, Dict.get?_insert, (h y mem).1]
    exact ⟨rfl, (h y mem).2⟩
  | none =>
    have same := isSome_update? x v e.outer
    rw [outer, ← isSome_update? x v e'.outer] at same
    cases hupdate : update? x v e.outer with
    | none =>
      rw [hupdate] at same
      rw [Option.isSome_eq_false_iff.1 same.symm |> Option.isNone_iff_eq_none.1]
      exact .inl ⟨_, rfl, rfl⟩
    | some frames =>
      rw [hupdate] at same
      obtain ⟨frames', hupdate'⟩ := Option.isSome_iff_exists.1 same.symm
      rw [hupdate']
      refine .inr ⟨_, _, rfl, rfl, ?_⟩
      intro y mem
      rw [find?_of_update? hupdate, find?_of_update? hupdate', (h y mem).2]
      exact ⟨(h y mem).1, rfl⟩

/-- Frames that were alike and still give the same for every name are still alike, if they got no
new names. Their own frames bind the same names as before: what they bind is found there, and its
bindings further out are what they were; what they do not bind is found further out. -/
theorem of_evolves {targets : List String} {d d' : Env} (h : Alike names e e')
    (evolves : Evolves [] targets e.frames d.frames)
    (evolves' : Evolves [] targets e'.frames d'.frames)
    (found : ∀ x ∈ names, Env.find? x d.frames = Env.find? x d'.frames) : Alike names d d' := by
  intro x mem
  obtain ⟨own, outer⟩ := h x mem
  have same := found x mem
  rw [frames, frames, find?_cons, find?_cons] at same
  cases bound : e.own.get? x with
  | none =>
    have unbound := evolves.unbound bound
    have unbound' := evolves'.unbound (own ▸ bound)
    rw [unbound, unbound'] at same ⊢
    exact ⟨rfl, same⟩
  | some v =>
    have there : (e.own.get? x).isSome := by simp [bound]
    have there' : (e'.own.get? x).isSome := own ▸ there
    obtain ⟨w, hw⟩ := Option.isSome_iff_exists.1 (evolves.keeps x there)
    obtain ⟨w', hw'⟩ := Option.isSome_iff_exists.1 (evolves'.keeps x there')
    rw [frames, value?_zero] at hw hw'
    rw [hw, hw', Option.some_or, Option.some_or] at same
    rw [hw, hw']
    exact ⟨same, (evolves.find?_outer there).trans
      (outer.trans (evolves'.find?_outer there').symm)⟩

/-- Behind a block that was entered alike and left alike. -/
theorem leave {new targets : List String} {d d' : Env} {inner inner' : Frame}
    (h : Alike names e e') (inside : Alike names d d')
    (evolves : Evolves new targets (e.enter inner).frames d.frames)
    (evolves' : Evolves new targets (e'.enter inner').frames d'.frames) :
    Alike names d.leave d'.leave := by
  refine h.of_evolves evolves.leave evolves'.leave fun x mem => ?_
  rw [evolves.frames_leave, evolves'.frames_leave]
  exact (inside x mem).2

end Alike

end Env

/-- States with frames that are alike, and the same output. -/
structure State.Alike (names : List String) (s s' : State) : Prop where
  env : s.env.Alike names s'.env
  room : s.room = s'.room
  past : s.past = s'.past

/-- Ends in the same way from states that are alike, and leaves them alike. -/
def SeesOnly (names : List String) (run : State → Ending × State) : Prop :=
  ∀ s s', s.Alike names s' → (run s).1 = (run s').1 ∧ (run s).2.Alike names (run s').2

section

variable {names new targets : List String} {s s' : State}

theorem State.Alike.emit (h : s.Alike names s') (event : Event) :
    (s.emit event).Alike names (s'.emit event) :=
  ⟨h.env, h.room, congrArg (event :: ·) h.past⟩

theorem State.Alike.enter (h : s.Alike names s') {inner inner' : Frame}
    (same : ∀ x ∈ names, inner.get? x = inner'.get? x) :
    (s.enter inner).Alike names (s'.enter inner') :=
  ⟨h.env.enter same, h.room, h.past⟩

theorem State.Alike.leave {t t' : State} {inner inner' : Frame} (h : s.Alike names s')
    (inside : t.Alike names t')
    (evolves : Env.Evolves new targets (s.enter inner).env.frames t.env.frames)
    (evolves' : Env.Evolves new targets (s'.enter inner').env.frames t'.env.frames) :
    t.leave.Alike names t'.leave :=
  ⟨h.env.leave inside.env evolves evolves', inside.room, inside.past⟩

theorem State.Alike.withValue (h : s.Alike names s') {e : Expr} (subset : e.names ⊆ names)
    {next next' : Value → Ending × State}
    (then_ : ∀ v, (next v).1 = (next' v).1 ∧ (next v).2.Alike names (next' v).2) :
    (s.withValue e next).1 = (s'.withValue e next').1 ∧
      (s.withValue e next).2.Alike names (s'.withValue e next').2 := by
  unfold State.withValue
  rw [h.env.eval subset]
  cases e.eval s'.env with
  | ok v => exact then_ v
  | error failure => exact ⟨rfl, h⟩

theorem State.Alike.update (h : s.Alike names s') {r r' : Except Failure Env}
    (same : (∃ failure, r = .error failure ∧ r' = .error failure) ∨
      (∃ e e', r = .ok e ∧ r' = .ok e' ∧ Env.Alike names e e')) :
    (s.update r).1 = (s'.update r').1 ∧ (s.update r).2.Alike names (s'.update r').2 := by
  rcases same with ⟨failure, rfl, rfl⟩ | ⟨e, e', rfl, rfl, alike⟩
  · exact ⟨rfl, h⟩
  · exact ⟨rfl, alike, h.room, h.past⟩

theorem State.Alike.print (h : s.Alike names s') (v : Value) :
    (s.print v).1 = (s'.print v).1 ∧ (s.print v).2.Alike names (s'.print v).2 := by
  unfold State.print
  rw [h.room]
  rcases hroom : s'.room with _ | _ | n
  · exact ⟨rfl, h.emit _⟩
  · exact ⟨rfl, h⟩
  · exact ⟨rfl, h.env, rfl, congrArg (_ :: ·) h.past⟩

/-- Both runs make the same passes; the frames of the loop stay alike, as do those around it. -/
theorem State.iterate_alike {test : Expr} (subset : test.names ⊆ names)
    {body : State → Ending × State} (sees : SeesOnly names body)
    (confined : Confined new targets body) (fuel : Nat) {inner inner' : Frame}
    (same : ∀ x ∈ names, inner.get? x = inner'.get? x) (h : s.Alike names s') :
    (s.iterate test body fuel inner).1 = (s'.iterate test body fuel inner').1 ∧
      (s.iterate test body fuel inner).2.Alike names (s'.iterate test body fuel inner').2 := by
  induction fuel generalizing inner inner' s s' with
  | zero => exact ⟨rfl, h⟩
  | succ fuel ih =>
    rw [State.iterate, State.iterate, h.env.test subset]
    cases test.test .loop s'.env with
    | error failure => exact ⟨rfl, h⟩
    | ok taken =>
      cases taken with
      | false => exact ⟨rfl, h⟩
      | true =>
        obtain ⟨ends, inside⟩ := sees _ _ (h.enter same)
        have behind := h.leave inside (confined (s.enter inner)) (confined (s'.enter inner'))
        revert ends inside behind
        obtain ⟨ending, t⟩ := body (s.enter inner)
        obtain ⟨ending', t'⟩ := body (s'.enter inner')
        rintro rfl inside behind
        cases ending with
        | normal => exact ih (fun x mem => (inside.env x mem).1) behind
        | returned v => exact ⟨rfl, behind⟩
        | failed failure => exact ⟨rfl, behind⟩
        | outOfFuel => exact ⟨rfl, behind⟩

theorem Stmt.branch_seesOnly {fuel : Nat} {test : Expr} {yes : Block} {no : Option Block}
    (subset : test.names ⊆ names) (inYes : SeesOnly names (Block.exec fuel yes))
    (inNo : SeesOnly names (Block.exec fuel (no.getD []))) :
    SeesOnly names ((Stmt.branch test yes no).exec fuel) := by
  intro s s' h
  have same := h.env.test subset .branch
  cases htest : test.test .branch s'.env with
  | error failure =>
    rw [exec_branch_failed fuel yes no (same.trans htest), exec_branch_failed fuel yes no htest]
    exact ⟨rfl, h⟩
  | ok taken =>
    rw [exec_branch fuel yes no (same.trans htest), exec_branch fuel yes no htest]
    have inside : SeesOnly names (Block.exec fuel (if taken then yes else no.getD [])) := by
      cases taken with
      | true => exact inYes
      | false => exact inNo
    have confined := Block.exec_confined fuel (if taken then yes else no.getD [])
    have emitted := h.emit (.branched taken)
    obtain ⟨ends, alike⟩ := inside _ _ (emitted.enter fun _ _ => rfl)
    exact ⟨ends, emitted.leave alike (confined _) (confined _)⟩

theorem Block.seesOnly_cons {fuel : Nat} {stmt : Stmt} {rest : Block}
    (first : SeesOnly names (stmt.exec fuel)) (others : SeesOnly names (Block.exec fuel rest)) :
    SeesOnly names (Block.exec fuel (stmt :: rest)) := by
  intro s s' h
  obtain ⟨ends, alike⟩ := first s s' h
  rw [Block.exec, Block.exec]
  revert ends alike
  obtain ⟨ending, t⟩ := stmt.exec fuel s
  obtain ⟨ending', t'⟩ := stmt.exec fuel s'
  rintro rfl alike
  cases ending with
  | normal => exact others t t' alike
  | returned v => exact ⟨rfl, alike⟩
  | failed failure => exact ⟨rfl, alike⟩
  | outOfFuel => exact ⟨rfl, alike⟩

end

mutual

theorem Stmt.exec_seesOnly (fuel : Nat) {names : List String} : (stmt : Stmt) →
    stmt.names ⊆ names → SeesOnly names (stmt.exec fuel)
  | .declare name e, subset => fun s s' h => by
    rw [Stmt.names, List.cons_subset] at subset
    simp only [Stmt.exec]
    exact h.withValue subset.2 fun v =>
      (h.emit (.declared name v)).update (h.env.declare subset.1 v)
  | .assign name e, subset => fun s s' h => by
    rw [Stmt.names, List.cons_subset] at subset
    simp only [Stmt.exec]
    exact h.withValue subset.2 fun v => h.update (h.env.assign subset.1 v)
  | .branch test yes none, subset => by
    rw [Stmt.names, List.append_subset] at subset
    exact Stmt.branch_seesOnly subset.1 (Block.exec_seesOnly fuel yes subset.2)
      fun _ _ h => ⟨rfl, h⟩
  | .branch test yes (some no), subset => by
    rw [Stmt.names, List.append_subset, List.append_subset] at subset
    exact Stmt.branch_seesOnly subset.1 (Block.exec_seesOnly fuel yes subset.2.1)
      (Block.exec_seesOnly fuel no subset.2.2)
  | .loop test body, subset => fun s s' h => by
    rw [Stmt.names, List.append_subset] at subset
    simp only [Stmt.exec]
    exact State.iterate_alike subset.1 (Block.exec_seesOnly fuel body subset.2)
      (Block.exec_confined fuel body) fuel (fun _ _ => rfl) (h.emit .looped)
  | .print e, subset => fun s s' h => by
    simp only [Stmt.exec]
    exact h.withValue subset h.print
  | .eval e, subset => fun s s' h => by
    simp only [Stmt.exec]
    exact h.withValue subset fun _ => ⟨rfl, h⟩
  | .result e, subset => fun s s' h => by
    simp only [Stmt.exec]
    exact h.withValue subset fun _ => ⟨rfl, h⟩
  | .hole, _ => fun s s' h => by
    simp only [Stmt.exec]
    exact ⟨trivial, h⟩

theorem Block.exec_seesOnly (fuel : Nat) {names : List String} : (b : List Stmt) →
    Block.names b ⊆ names → SeesOnly names (Block.exec fuel b)
  | [], _ => fun _ _ h => ⟨rfl, h⟩
  | stmt :: rest, subset => by
    rw [Block.names, List.append_subset] at subset
    exact Block.seesOnly_cons (stmt.exec_seesOnly fuel subset.1)
      (Block.exec_seesOnly fuel rest subset.2)

end

/-- **A statement sees only its names.** Two runs with the same output, whose own frames agree on the
names in the statement and whose frames around them give the same for each of these names, end in
the same way with the same value, failure or lack of fuel, so that one goes on forever exactly if
the other does; they print the same, and their frames are alike again. What else the frames bind,
what is shadowed, and how many frames there are makes no difference. -/
theorem Stmt.exec_sees_names (fuel : Nat) (stmt : Stmt) {e e' : Env}
    (alike : Env.Alike stmt.names e e') (room : Option Nat) (past : List Event) :
    let r := stmt.exec fuel ⟨e, room, past⟩
    let r' := stmt.exec fuel ⟨e', room, past⟩
    r.1 = r'.1 ∧ r.2.past = r'.2.past ∧ r.2.room = r'.2.room ∧
      Env.Alike stmt.names r.2.env r'.2.env := by
  intro r r'
  obtain ⟨ends, after⟩ :=
    stmt.exec_seesOnly fuel (fun _ there => there) ⟨e, room, past⟩ ⟨e', room, past⟩ ⟨alike, rfl, rfl⟩
  exact ⟨ends, after.past, after.room, after.env⟩

/-- Reads a name, binds it again inside and assigns it outside. -/
def rebinding : Stmt :=
  .loop (.variable "x") [.assign "x" (.bool false), .declare "x" (.bool true), .print (.variable "x")]

/-- Another binding, an empty frame and a shadowed binding make no difference. -/
theorem Stmt.exec_sees_names_rebinding :
    let bound : Frame := Dict.empty.insert "x" (.bool true)
    let e : Env := ⟨Dict.empty, [bound]⟩
    let e' : Env := ⟨Dict.empty.insert "y" (.bool true), [Dict.empty, bound, bound]⟩
    Env.Alike rebinding.names e e' ∧
    (rebinding.exec 2 { env := e }).1 = .normal ∧ (rebinding.exec 2 { env := e' }).1 = .normal ∧
    Env.Alike rebinding.names (rebinding.exec 2 { env := e }).2.env
      (rebinding.exec 2 { env := e' }).2.env := by
  intro bound e e'
  have alike : Env.Alike rebinding.names e e' := by
    unfold Env.Alike
    decide
  obtain ⟨ends, -, -, after⟩ := Stmt.exec_sees_names 2 rebinding alike none []
  have normal : (rebinding.exec 2 { env := e }).1 = .normal := by decide
  exact ⟨alike, normal, ends.symm.trans normal, after⟩

end LetWhile
