import LetWhile.Proofs.Run.Fuel

/-!
# Frames

What a statement can do to the frames that it sees, whichever way it ends. Main result:
`Stmt.exec_keeps_frames`. `Env.Evolves` says what may become of the frames; a declaration and an
assignment do no more (`Env.declare_evolves`, `Env.assign_evolves`), and neither does what is put
together from statements (`Env.Evolves.trans`, `Env.Evolves.leave`).
-/

namespace LetWhile

mutual

/-- The names that a statement assigns to, in the blocks inside it too. -/
def Stmt.targets : Stmt → List String
  | .assign name _ => [name]
  | .branch _ yes none => Block.targets yes
  | .branch _ yes (some no) => Block.targets yes ++ Block.targets no
  | .loop _ body => Block.targets body
  | .declare _ _ | .print _ | .eval _ | .result _ | .hole => []

def Block.targets : List Stmt → List String
  | [] => []
  | s :: rest => s.targets ++ Block.targets rest

end

namespace Env

/-- What the frame `k` steps out binds a name to. -/
def value? (name : String) (frames : List Frame) (k : Nat) : Option Value :=
  frames[k]?.bind (·.get? name)

@[simp] theorem value?_zero (name : String) (f : Frame) (rest : List Frame) :
    value? name (f :: rest) 0 = f.get? name := rfl

@[simp] theorem value?_succ (name : String) (f : Frame) (rest : List Frame) (k : Nat) :
    value? name (f :: rest) (k + 1) = value? name rest k := by
  simp [value?]

/-- What may become of frames when the own frame may get the names `new` and the names `targets`
may be assigned. -/
structure Evolves (new targets : List String) (frames frames' : List Frame) : Prop where
  length : frames'.length = frames.length
  /-- The frames further out bind the names they bound. -/
  outer : ∀ x k, 0 < k → (value? x frames' k).isSome = (value? x frames k).isSome
  /-- The own frame loses no name. -/
  keeps : ∀ x, (value? x frames 0).isSome → (value? x frames' 0).isSome
  /-- The own frame gets no other name than the new ones. -/
  gains : ∀ x, (value? x frames' 0).isSome → (value? x frames 0).isSome ∨ x ∈ new
  /-- What is not assigned keeps its value. -/
  unassigned : ∀ x k, x ∉ targets → (value? x frames k).isSome → value? x frames' k = value? x frames k
  /-- What is shadowed keeps its value. -/
  shadowed : ∀ x j k, j < k → (value? x frames j).isSome → value? x frames' k = value? x frames k

namespace Evolves

variable {new targets : List String} {frames frames' frames'' : List Frame}

theorem refl (new targets : List String) (frames : List Frame) :
    Evolves new targets frames frames where
  length := rfl
  outer _ _ _ := rfl
  keeps _ h := h
  gains _ h := .inl h
  unassigned _ _ _ _ := rfl
  shadowed _ _ _ _ _ := rfl

/-- No binding is lost. -/
theorem isSome (h : Evolves new targets frames frames') {x : String} {k : Nat}
    (bound : (value? x frames k).isSome) : (value? x frames' k).isSome := by
  rcases Nat.eq_zero_or_pos k with rfl | pos
  · exact h.keeps x bound
  · rwa [h.outer x k pos]

theorem trans (h : Evolves new targets frames frames') (h' : Evolves new targets frames' frames'') :
    Evolves new targets frames frames'' where
  length := h'.length.trans h.length
  outer x k pos := (h'.outer x k pos).trans (h.outer x k pos)
  keeps x bound := h'.keeps x (h.keeps x bound)
  gains x bound := by
    rcases h'.gains x bound with before | fresh
    · exact h.gains x before
    · exact .inr fresh
  unassigned x k free bound :=
    (h'.unassigned x k free (h.isSome bound)).trans (h.unassigned x k free bound)
  shadowed x j k lt bound :=
    (h'.shadowed x j k lt (h.isSome bound)).trans (h.shadowed x j k lt bound)

theorem mono {new' targets' : List String} (h : Evolves new targets frames frames')
    (subset : new ⊆ new') (subset' : targets ⊆ targets') :
    Evolves new' targets' frames frames' where
  length := h.length
  outer := h.outer
  keeps := h.keeps
  gains x bound := (h.gains x bound).imp_right fun there => subset there
  unassigned x k free bound := h.unassigned x k (fun there => free (subset' there)) bound
  shadowed := h.shadowed

/-- The frames around a block get no new name, whatever the block declares. -/
theorem tail {inner inner' : Frame} (h : Evolves new targets (inner :: frames) (inner' :: frames')) :
    Evolves [] targets frames frames' where
  length := by simpa using h.length
  outer x k _ := by simpa using h.outer x (k + 1) (Nat.succ_pos k)
  keeps x bound := by
    have same := h.outer x 1 Nat.one_pos
    rw [value?_succ, value?_succ] at same
    rwa [same]
  gains x bound := by
    have same := h.outer x 1 Nat.one_pos
    rw [value?_succ, value?_succ] at same
    rw [same] at bound
    exact .inl bound
  unassigned x k free bound := by
    have same := h.unassigned x (k + 1) free
    rw [value?_succ, value?_succ] at same
    exact same bound
  shadowed x j k lt bound := by
    have same := h.shadowed x (j + 1) (k + 1) (Nat.succ_lt_succ lt)
    rw [value?_succ, value?_succ, value?_succ] at same
    exact same bound

/-- Leaving a block that was entered with the frame `inner`. -/
theorem leave {e e' : Env} {inner : Frame} (h : Evolves new targets (e.enter inner).frames e'.frames) :
    Evolves [] targets e.frames e'.leave.frames := by
  obtain ⟨own, outer⟩ := e'
  cases outer with
  | nil =>
    have length := h.length
    simp [Env.enter, Env.frames] at length
  | cons f rest => exact h.tail

end Evolves

theorem declare_evolves {e e' : Env} {name : String} {v : Value} (h : e.declare name v = .ok e')
    (targets : List String) : Evolves [name] targets e.frames e'.frames := by
  unfold declare Frame.declare at h
  split at h
  · rename_i own hown
    cases h
    split at hown
    · cases hown
    · rename_i absent
      cases hown
      have unbound : e.own.get? name = none := by
        simpa [Dict.contains_eq_isSome] using absent
      have own (x : String) (bound : (e.own.get? x).isSome) :
          (e.own.insert name v).get? x = e.own.get? x := by
        rw [Dict.get?_insert, if_neg]
        rintro rfl
        simp [unbound] at bound
      refine ⟨rfl, ?_, ?_, ?_, ?_, ?_⟩
      · intro x k pos
        obtain ⟨k, rfl⟩ := Nat.exists_eq_succ_of_ne_zero (Nat.ne_of_gt pos)
        simp [frames]
      · intro x bound
        simp only [frames, value?_zero] at bound ⊢
        rwa [own x bound]
      · intro x bound
        simp only [frames, value?_zero, Dict.get?_insert, List.mem_singleton] at bound ⊢
        split at bound
        · exact .inr ‹_›
        · exact .inl bound
      · intro x k _ bound
        cases k with
        | zero => exact own x bound
        | succ k => simp [frames]
      · intro x j k lt _
        obtain ⟨k, rfl⟩ := Nat.exists_eq_succ_of_ne_zero (Nat.ne_of_gt (Nat.zero_lt_of_lt lt))
        simp [frames]
  · cases h

/-- An assignment changes one binding, the nearest of the name. -/
theorem value?_of_update? {name : String} {v : Value} {frames frames' : List Frame}
    (h : update? name v frames = some frames') :
    frames'.length = frames.length ∧ ∃ i, (∀ j, j < i → value? name frames j = none) ∧
      (value? name frames i).isSome ∧
      ∀ x k, value? x frames' k = if x = name ∧ k = i then some v else value? x frames k := by
  induction frames generalizing frames' with
  | nil => cases h
  | cons f rest ih =>
    rw [update?] at h
    split at h
    · rename_i there
      cases h
      refine ⟨rfl, 0, by simp, by rwa [value?_zero, ← Dict.contains_eq_isSome], ?_⟩
      intro x k
      cases k with
      | zero => simp [Dict.get?_insert]
      | succ k => simp
    · rename_i absent
      obtain ⟨rest', hrest, rfl⟩ := Option.map_eq_some_iff.1 h
      obtain ⟨length, i, before, bound, changed⟩ := ih hrest
      have unbound : f.get? name = none := by simpa [Dict.contains_eq_isSome] using absent
      refine ⟨by simp [length], i + 1, ?_, by simpa using bound, ?_⟩
      · intro j lt
        cases j with
        | zero => simpa using unbound
        | succ j => simpa using before j (Nat.lt_of_succ_lt_succ lt)
      · intro x k
        cases k with
        | zero => simp
        | succ k => simpa using changed x k

theorem update?_evolves {name : String} {v : Value} {frames frames' : List Frame}
    (h : update? name v frames = some frames') (new : List String) :
    Evolves new [name] frames frames' := by
  obtain ⟨length, i, before, bound, changed⟩ := value?_of_update? h
  have same (x : String) (k : Nat) : (value? x frames' k).isSome = (value? x frames k).isSome := by
    rw [changed]
    split
    · rename_i here
      rw [here.1, here.2, bound]
      rfl
    · rfl
  refine ⟨length, fun x k _ => same x k, ?_, ?_, ?_, ?_⟩
  · intro x there
    rwa [same]
  · intro x there
    rw [same] at there
    exact .inl there
  · intro x k free _
    rw [changed, if_neg]
    rintro ⟨rfl, -⟩
    simp at free
  · intro x j k lt there
    rw [changed, if_neg]
    rintro ⟨rfl, rfl⟩
    simp [before j lt] at there

theorem assign_evolves {e e' : Env} {name : String} {v : Value} (h : e.assign name v = .ok e')
    (new : List String) : Evolves new [name] e.frames e'.frames := by
  unfold assign at h
  split at h
  · rename_i own outer hupdate
    cases h
    exact update?_evolves hupdate new
  · cases h

end Env

/-- Leaves frames that evolved from those it was given. -/
def Confined (new targets : List String) (run : State → Ending × State) : Prop :=
  ∀ s, Env.Evolves new targets s.env.frames (run s).2.env.frames

section

variable {new targets : List String}

theorem State.withValue_evolves {s : State} {e : Expr} {next : Value → Ending × State}
    (h : ∀ v, Env.Evolves new targets s.env.frames (next v).2.env.frames) :
    Env.Evolves new targets s.env.frames (s.withValue e next).2.env.frames := by
  unfold State.withValue
  split
  · exact h _
  · exact .refl new targets _

theorem State.update_evolves {s : State} {r : Except Failure Env}
    (h : ∀ e, r = .ok e → Env.Evolves new targets s.env.frames e.frames) :
    Env.Evolves new targets s.env.frames (s.update r).2.env.frames := by
  cases r with
  | ok e => exact h e rfl
  | error failure => exact .refl new targets _

theorem State.print_env (s : State) (v : Value) : (s.print v).2.env = s.env := by
  unfold State.print
  split <;> rfl

theorem State.iterate_confined {test : Expr} {body : State → Ending × State}
    (h : Confined new targets body) (fuel : Nat) (inner : Frame) :
    Confined [] targets (State.iterate test body fuel inner) := by
  induction fuel generalizing inner with
  | zero => exact fun s => .refl [] targets _
  | succ fuel ih =>
    intro s
    have passed : Env.Evolves [] targets s.env.frames (body (s.enter inner)).2.leave.env.frames :=
      (h (s.enter inner)).leave
    rw [State.iterate]
    split
    · exact .refl [] targets _
    · exact .refl [] targets _
    · split
      · rename_i s' hbody
        rw [hbody] at passed
        exact passed.trans (ih s'.env.own s'.leave)
      · rename_i ending s' _ hbody
        rw [hbody] at passed
        exact passed

theorem Stmt.branch_confined {fuel : Nat} (test : Expr) {yes : Block} {no : Option Block}
    (inYes : Confined new targets (Block.exec fuel yes))
    (inNo : Confined new targets (Block.exec fuel (no.getD []))) :
    Confined [] targets ((Stmt.branch test yes no).exec fuel) := by
  intro s
  cases htest : test.test .branch s.env with
  | error failure =>
    rw [exec_branch_failed fuel yes no htest]
    exact .refl [] targets _
  | ok taken =>
    rw [exec_branch fuel yes no htest]
    have inside : Confined new targets (Block.exec fuel (if taken then yes else no.getD [])) := by
      cases taken with
      | true => exact inYes
      | false => exact inNo
    exact (inside ((s.emit (.branched taken)).enter Dict.empty)).leave

theorem Confined.mono {new' targets' : List String} {run : State → Ending × State}
    (h : Confined new targets run) (subset : new ⊆ new') (subset' : targets ⊆ targets') :
    Confined new' targets' run :=
  fun s => (h s).mono subset subset'

theorem Block.confined_cons {fuel : Nat} {stmt : Stmt} {rest : Block}
    (first : Confined new targets (stmt.exec fuel))
    (others : Confined new targets (Block.exec fuel rest)) :
    Confined new targets (Block.exec fuel (stmt :: rest)) := by
  intro s
  have passed := first s
  rw [Block.exec]
  split
  · rename_i s' hfirst
    rw [hfirst] at passed
    exact passed.trans (others s')
  · exact passed

end

theorem Block.declarations_cons_subset (stmt : Stmt) (rest : Block) :
    stmt.declares?.toList ⊆ Block.declarations (stmt :: rest) ∧
    Block.declarations rest ⊆ Block.declarations (stmt :: rest) := by
  constructor
  · intro x there
    rw [Option.mem_toList] at there
    simp only [Block.declarations, List.mem_eraseDups, List.mem_filterMap]
    exact ⟨stmt, List.mem_cons_self, there⟩
  · intro x there
    simp only [Block.declarations, List.mem_eraseDups, List.mem_filterMap] at there ⊢
    obtain ⟨other, member, declares⟩ := there
    exact ⟨other, List.mem_cons_of_mem _ member, declares⟩

mutual

theorem Stmt.exec_confined (fuel : Nat) : (stmt : Stmt) →
    Confined stmt.declares?.toList stmt.targets (stmt.exec fuel)
  | .declare name e => fun s => by
    simp only [Stmt.exec]
    exact State.withValue_evolves fun v =>
      State.update_evolves (s := s.emit (.declared name v)) fun _ done => Env.declare_evolves done _
  | .assign name e => fun s => by
    simp only [Stmt.exec]
    exact State.withValue_evolves fun v =>
      State.update_evolves fun _ done => Env.assign_evolves done _
  | .branch test yes none => by
    have inYes := Block.exec_confined fuel yes
    exact Stmt.branch_confined test inYes (fun s => .refl _ _ _)
  | .branch test yes (some no) => by
    have inYes := Block.exec_confined fuel yes
    have inNo := Block.exec_confined fuel no
    exact Stmt.branch_confined test
      (inYes.mono (List.subset_append_left _ (Block.declarations no)) (List.subset_append_left _ _))
      (inNo.mono (List.subset_append_right _ _) (List.subset_append_right _ _))
  | .loop test body => fun s => by
    simp only [Stmt.exec]
    exact State.iterate_confined (Block.exec_confined fuel body) fuel Dict.empty (s.emit .looped)
  | .print e => fun s => by
    simp only [Stmt.exec]
    refine State.withValue_evolves fun v => ?_
    rw [s.print_env v]
    exact .refl _ _ _
  | .eval e => fun s => by
    simp only [Stmt.exec]
    exact State.withValue_evolves fun _ => .refl _ _ _
  | .result e => fun s => by
    simp only [Stmt.exec]
    exact State.withValue_evolves fun _ => .refl _ _ _
  | .hole => fun s => by
    simp only [Stmt.exec]
    exact .refl _ _ _

theorem Block.exec_confined (fuel : Nat) : (b : List Stmt) →
    Confined (Block.declarations b) (Block.targets b) (Block.exec fuel b)
  | [] => fun _ => .refl _ _ _
  | stmt :: rest => by
    obtain ⟨own, others⟩ := Block.declarations_cons_subset stmt rest
    exact Block.confined_cons
      ((stmt.exec_confined fuel).mono own (List.subset_append_left _ _))
      ((Block.exec_confined fuel rest).mono others (List.subset_append_right _ _))

end

/-- **A statement keeps the frames.** However it ends, there are as many frames as before; the
frames further out bind the names they bound; the own frame keeps its names and gets at most the one
that the statement itself declares; a binding whose name is assigned nowhere in the statement keeps
its value; and so does a binding with another one of its name nearer. -/
theorem Stmt.exec_keeps_frames (fuel : Nat) (stmt : Stmt) (s : State) :
    let before (x : String) (k : Nat) := Env.value? x s.env.frames k
    let after (x : String) (k : Nat) := Env.value? x (stmt.exec fuel s).2.env.frames k
    (stmt.exec fuel s).2.env.frames.length = s.env.frames.length ∧
    (∀ x k, 0 < k → ((after x k).isSome ↔ (before x k).isSome)) ∧
    (∀ x, (before x 0).isSome → (after x 0).isSome) ∧
    (∀ x, (after x 0).isSome → (before x 0).isSome ∨ stmt.declares? = some x) ∧
    (∀ x k v, x ∉ stmt.targets → before x k = some v → after x k = some v) ∧
    (∀ x j k, j < k → (before x j).isSome → after x k = before x k) := by
  intro before after
  have h := stmt.exec_confined fuel s
  refine ⟨h.length, ?_, h.keeps, ?_, ?_, h.shadowed⟩
  · intro x k pos
    exact Bool.eq_iff_iff.1 (h.outer x k pos)
  · intro x bound
    have gained := h.gains x bound
    rwa [Option.mem_toList] at gained
  · intro x k v free bound
    have there : (Env.value? x s.env.frames k).isSome := Option.isSome_of_eq_some bound
    exact (h.unassigned x k free there).trans bound

end LetWhile
