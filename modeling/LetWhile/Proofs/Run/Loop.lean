import LetWhile.Proofs.Run.Bindings

/-!
# Loops

A run of a loop is a number of complete passes, after which the test ends it or a pass stops it
(`Loop.Passes`, `Loop.Stops`). All passes share one frame, which no statement takes a name from; so
a body that declares a name of its own cannot be passed through twice. Main result:
`Stmt.loop_passes_declaration_once`.
-/

namespace LetWhile

namespace Loop

/-- The loop from a state on, its passes sharing the frame `inner`. -/
def run (test : Expr) (body : Block) (inner : Frame) (fuel : Nat) (s : State) : Ending × State :=
  s.iterate test (fun s => Block.exec fuel body s) fuel inner

/-- The loop makes `n` complete passes: from one state to another, and from what the shared frame
binds before them to what it binds behind them. -/
inductive Passes (test : Expr) (body : Block) : Nat → Frame → State → Frame → State → Prop where
  | none {inner : Frame} {s : State} : Passes test body 0 inner s inner s
  | next {n : Nat} {inner inner' : Frame} {s s' t : State} (goes : test.test .loop s.env = .ok true)
      (pass : Block.Settles body (s.enter inner) .normal s')
      (more : Passes test body n s'.env.own s'.leave inner' t) :
      Passes test body (n + 1) inner s inner' t

/-- The loop makes no further complete pass: the test ends it or fails, or it holds and the pass
stops early. -/
inductive Stops (test : Expr) (body : Block) (inner : Frame) (s : State) : Ending → State → Prop where
  | ended (holds : test.test .loop s.env = .ok false) : Stops test body inner s .normal s
  | untested {failure : Failure} (fails : test.test .loop s.env = .error failure) :
      Stops test body inner s (.failed failure) s
  | inside {ending : Ending} {s' : State} (goes : test.test .loop s.env = .ok true)
      (cut : Block.Settles body (s.enter inner) ending s') (early : ending ≠ .normal) :
      Stops test body inner s ending s'.leave

variable {test : Expr} {body : Block} {inner inner' : Frame} {s s' t : State} {ending : Ending}
  {n : Nat}

theorem run_steady (test : Expr) (body : Block) (inner : Frame) : Steady (run test body inner) :=
  fun _ _ le => State.iterate_extends (Block.exec_extends le body) le inner

theorem run_pass {fuel : Nat} (goes : test.test .loop s.env = .ok true)
    (pass : Block.exec (fuel + 1) body (s.enter inner) = (.normal, s')) :
    run test body inner (fuel + 1) s =
      s'.leave.iterate test (fun s => Block.exec (fuel + 1) body s) fuel s'.env.own := by
  rw [run, State.iterate, goes]
  dsimp only
  rw [pass]

theorem run_cut {fuel : Nat} (goes : test.test .loop s.env = .ok true)
    (cut : Block.exec (fuel + 1) body (s.enter inner) = (ending, s')) (early : ending ≠ .normal) :
    run test body inner (fuel + 1) s = (ending, s'.leave) := by
  rw [run, State.iterate, goes]
  dsimp only
  rw [cut]
  cases ending with
  | normal => exact absurd rfl early
  | _ => rfl

theorem Stops.settles (h : Stops test body inner s ending t) :
    Settles (run test body inner) s ending t := by
  cases h with
  | ended holds =>
    refine ⟨?_, 1, by rw [run, State.iterate, holds]⟩
    rintro ⟨⟩
  | untested fails =>
    refine ⟨?_, 1, by rw [run, State.iterate, fails]⟩
    rintro ⟨⟩
  | @inside _ s' goes cut early =>
    obtain ⟨enough, result⟩ := cut.of_le body.exec_steady
    exact ⟨cut.1, enough + 1, run_cut goes (result (enough + 1) (Nat.le_succ enough)) early⟩

/-- One pass and then the rest. -/
theorem settles_next (goes : test.test .loop s.env = .ok true)
    (pass : Block.Settles body (s.enter inner) .normal s')
    (rest : Settles (run test body s'.env.own) s'.leave ending t) :
    Settles (run test body inner) s ending t := by
  obtain ⟨enough, result⟩ := pass.of_le body.exec_steady
  obtain ⟨enough', result'⟩ := rest.of_le (run_steady test body s'.env.own)
  let fuel := max enough enough'
  refine ⟨rest.1, fuel + 1, ?_⟩
  rw [run_pass goes (result (fuel + 1) (by omega))]
  have later := result' fuel (Nat.le_max_right _ _)
  have running : (run test body s'.env.own fuel s'.leave).1 ≠ .outOfFuel := by
    rw [later]
    exact rest.1
  have more := State.iterate_extends (Block.exec_extends (Nat.le_succ fuel) body) (Nat.le_refl fuel)
    s'.env.own s'.leave running
  exact more.trans later

theorem Passes.settles (h : Passes test body n inner s inner' s')
    (rest : Settles (run test body inner') s' ending t) : Settles (run test body inner) s ending t := by
  induction h with
  | none => exact rest
  | next goes pass _ ih => exact settles_next goes pass (ih rest)

/-- What comes behind a pass is the rest. -/
theorem settles_of_next (goes : test.test .loop s.env = .ok true)
    (pass : Block.Settles body (s.enter inner) .normal s')
    (h : Settles (run test body inner) s ending t) :
    Settles (run test body s'.env.own) s'.leave ending t := by
  obtain ⟨running, fuel, result⟩ := h
  cases fuel with
  | zero =>
    cases result
    exact absurd rfl running
  | succ fuel =>
    by_cases out : (Block.exec (fuel + 1) body (s.enter inner)).1 = .outOfFuel
    · rw [run_cut goes (Prod.ext out rfl) nofun] at result
      cases result
      exact absurd rfl running
    · obtain ⟨normal, left⟩ := Settles.unique body.exec_steady ⟨out, fuel + 1, rfl⟩ pass
      rw [run_pass goes (Prod.ext normal left)] at result
      have ends : (s'.leave.iterate test (Block.exec (fuel + 1) body) fuel s'.env.own).1 ≠
          .outOfFuel := by
        rwa [result]
      have more := State.iterate_extends (Extends.refl (Block.exec (fuel + 1) body))
        (Nat.le_succ fuel) s'.env.own s'.leave ends
      exact ⟨running, fuel + 1, more.trans result⟩

theorem forever_inside (goes : test.test .loop s.env = .ok true)
    (stuck : Block.Forever body (s.enter inner)) : Forever (run test body inner) s := by
  intro fuel
  cases fuel with
  | zero => rfl
  | succ fuel =>
    have out : (Block.exec (fuel + 1) body (s.enter inner)).1 = .outOfFuel := stuck (fuel + 1)
    rw [run_cut goes (Prod.ext out rfl) nofun]

theorem Passes.forever (h : Passes test body n inner s inner' s')
    (rest : Forever (run test body inner') s') : Forever (run test body inner) s := by
  induction h with
  | none => exact rest
  | @next n inner _ s _ t goes pass _ ih =>
    rcases settles_or_forever (run test body inner) s with ⟨ending, t, settles⟩ | forever
    · exact absurd (ih rest) (settles_of_next goes pass settles).not_forever
    · exact forever

/-- From any state on, the loop makes no further complete pass, or makes one, or stays in one. -/
theorem pass_cases (test : Expr) (body : Block) (inner : Frame) (s : State) :
    (∃ ending t, Stops test body inner s ending t) ∨
    (test.test .loop s.env = .ok true ∧ ∃ s', Block.Settles body (s.enter inner) .normal s') ∨
    (test.test .loop s.env = .ok true ∧ Block.Forever body (s.enter inner)) := by
  cases holds : test.test .loop s.env with
  | error failure => exact .inl ⟨_, _, .untested holds⟩
  | ok taken =>
    cases taken with
    | false => exact .inl ⟨_, _, .ended holds⟩
    | true =>
      rcases settles_or_forever (fun fuel => Block.exec fuel body) (s.enter inner) with
        ⟨ending, s', settles⟩ | stuck
      · by_cases complete : ending = .normal
        · subst complete
          exact .inr (.inl ⟨rfl, s', settles⟩)
        · exact .inl ⟨_, _, .inside holds settles complete⟩
      · exact .inr (.inr ⟨rfl, stuck⟩)

end Loop

theorem Stmt.settles_loop_iff {test : Expr} {body : Block} {s t : State} {ending : Ending} :
    (Stmt.loop test body).Settles s ending t ↔
      LetWhile.Settles (Loop.run test body Dict.empty) (s.emit .looped) ending t := by
  simp only [Stmt.Settles, LetWhile.Settles, Stmt.exec, Loop.run]

theorem Stmt.forever_loop_iff {test : Expr} {body : Block} {s : State} :
    (Stmt.loop test body).Forever s ↔
      LetWhile.Forever (Loop.run test body Dict.empty) (s.emit .looped) := by
  simp only [Stmt.Forever, LetWhile.Forever, Stmt.exec, Loop.run]

/-! ## Bodies with a declaration -/

namespace Block

variable {b before after : Block} {name : String} {s s' : State} {ending : Ending}

theorem exec_append (fuel : Nat) (p q : Block) (s : State) :
    exec fuel (p ++ q) s = match exec fuel p s with
      | (.normal, s') => exec fuel q s'
      | stopped => stopped := by
  induction p generalizing s with
  | nil => rfl
  | cons stmt rest ih =>
    rw [List.cons_append, exec, exec]
    obtain ⟨ending, s'⟩ := stmt.exec fuel s
    cases ending with
    | normal => exact ih s'
    | returned v => rfl
    | failed failure => rfl
    | outOfFuel => rfl

/-- What a block declares is new in its frame, and stays. -/
theorem Settles.declares (h : Block.Settles b s .normal s') (declared : name ∈ lets b) :
    name ∉ s.env.own.keys ∧ name ∈ s'.env.own.keys := by
  obtain ⟨-, fuel, result⟩ := h
  obtain ⟨k, same⟩ := runFrom_eq fuel 1 b s
  rw [show exec fuel b s = (.normal, s') from result] at same
  obtain ⟨binds, -, new⟩ := runFrom_binds same
  exact ⟨new name declared, (binds name).2 (.inr declared)⟩

theorem Settles.keeps (h : Block.Settles b s ending s') (bound : name ∈ s.env.own.keys) :
    name ∈ s'.env.own.keys := by
  obtain ⟨-, fuel, result⟩ := h
  have evolves := exec_confined fuel b s
  rw [show exec fuel b s = (ending, s') from result] at evolves
  exact evolves.mem_keys.1 bound

theorem mem_lets (before : Block) (name : String) (value : Expr) (after : Block) :
    name ∈ lets (before ++ .declare name value :: after) := by
  simp [lets, Stmt.declares?]

/-- A block fails at a declaration of a name that is bound. -/
theorem Settles.redeclares {value : Expr} {v : Value} (h : Block.Settles before s .normal s')
    (bound : name ∈ s.env.own.keys) (evaluates : value.eval s'.env = .ok v) :
    Block.Settles (before ++ .declare name value :: after) s (.failed (.redeclared name))
      (s'.emit (.declared name v)) := by
  have still := h.keeps bound
  obtain ⟨-, fuel, result⟩ := h
  refine ⟨nofun, fuel, ?_⟩
  rw [Dict.mem_keys_iff, ← Dict.contains_eq_isSome] at still
  have fails : (Stmt.declare name value).exec fuel s' =
      (.failed (.redeclared name), s'.emit (.declared name v)) := by
    simp [Stmt.exec, State.withValue, evaluates, Env.declare, Frame.declare, still, State.update]
  change exec fuel (before ++ .declare name value :: after) s = _
  rw [exec_append, show exec fuel before s = (.normal, s') from result]
  dsimp only
  rw [exec, fails]

end Block

namespace Loop

variable {test : Expr} {body : Block} {inner inner' : Frame} {s t : State} {name : String} {n : Nat}

theorem Passes.eq_zero_of_bound (h : Passes test body n inner s inner' t)
    (declared : name ∈ Block.lets body) (bound : name ∈ inner.keys) : n = 0 := by
  cases h with
  | none => rfl
  | next goes pass more => exact absurd bound (pass.declares declared).1

/-- A complete pass binds the name in the shared frame. -/
theorem Passes.le_one (h : Passes test body n inner s inner' t)
    (declared : name ∈ Block.lets body) : n ≤ 1 := by
  cases h with
  | none => exact Nat.zero_le 1
  | next goes pass more =>
    have none := more.eq_zero_of_bound declared (pass.declares declared).2
    omega

theorem Passes.bound (h : Passes test body 1 inner s inner' t)
    (declared : name ∈ Block.lets body) : name ∈ inner'.keys := by
  cases h with
  | next goes pass more =>
    cases more with
    | none => exact (pass.declares declared).2

/-- After at most one complete pass the loop makes no further one. -/
theorem exists_last_pass (declared : name ∈ Block.lets body) (inner : Frame) (s : State) :
    ∃ n ≤ 1, ∃ inner' s', Passes test body n inner s inner' s' ∧
      ((∃ ending t, Stops test body inner' s' ending t) ∨
        (test.test .loop s'.env = .ok true ∧ Block.Forever body (s'.enter inner'))) := by
  rcases pass_cases test body inner s with stops | ⟨goes, s', pass⟩ | stuck
  · exact ⟨0, Nat.zero_le 1, inner, s, .none, .inl stops⟩
  · have first : Passes test body 1 inner s s'.env.own s'.leave := .next goes pass .none
    rcases pass_cases test body s'.env.own s'.leave with stops | ⟨goes', s'', again⟩ | stuck
    · exact ⟨1, Nat.le_refl 1, _, _, first, .inl stops⟩
    · exact absurd (pass.declares declared).2 (again.declares declared).1
    · exact ⟨1, Nat.le_refl 1, _, _, first, .inr stuck⟩
  · exact ⟨0, Nat.zero_le 1, inner, s, .none, .inr stuck⟩

end Loop

/-- **A loop passes through a declaration of its body once.** Let the body declare a name directly.
Whatever else it does, the loop never makes two complete passes. When it ends, it has made at most
one, after which the test did not hold or failed, or the next pass stopped early, with a failure or
a return; when it goes on forever, it does so inside its first or second pass. And if a second pass
comes to the declaration and has a value for it, the loop fails there, since the name is bound. -/
theorem Stmt.loop_passes_declaration_once (test : Expr) (before : Block) (name : String)
    (value : Expr) (after : Block) (s : State) :
    let body := before ++ .declare name value :: after
    let start := s.emit .looped
    (∀ n inner t, Loop.Passes test body n Dict.empty start inner t → n ≤ 1) ∧
    (∀ ending t, (Stmt.loop test body).Settles s ending t →
      ∃ n ≤ 1, ∃ inner s', Loop.Passes test body n Dict.empty start inner s' ∧
        Loop.Stops test body inner s' ending t) ∧
    ((Stmt.loop test body).Forever s →
      ∃ n ≤ 1, ∃ inner s', Loop.Passes test body n Dict.empty start inner s' ∧
        test.test .loop s'.env = .ok true ∧ Block.Forever body (s'.enter inner)) ∧
    (∀ inner s' t v, Loop.Passes test body 1 Dict.empty start inner s' →
      test.test .loop s'.env = .ok true → Block.Settles before (s'.enter inner) .normal t →
      value.eval t.env = .ok v →
      (Stmt.loop test body).Settles s (.failed (.redeclared name))
        (t.emit (.declared name v)).leave) := by
  intro body start
  have declared : name ∈ Block.lets body := Block.mem_lets before name value after
  obtain ⟨n, le, inner, s', passes, last⟩ := Loop.exists_last_pass declared Dict.empty start
  refine ⟨?_, ?_, ?_, ?_⟩
  · intro n inner t passes
    exact passes.le_one declared
  · intro ending t settles
    rw [settles_loop_iff] at settles
    rcases last with ⟨ending', t', stops⟩ | ⟨goes, stuck⟩
    · obtain ⟨rfl, rfl⟩ :=
        settles.unique (Loop.run_steady test body Dict.empty) (passes.settles stops.settles)
      exact ⟨n, le, inner, s', passes, stops⟩
    · exact absurd (passes.forever (Loop.forever_inside goes stuck)) settles.not_forever
  · intro forever
    rw [forever_loop_iff] at forever
    rcases last with ⟨ending', t', stops⟩ | stuck
    · exact absurd forever (passes.settles stops.settles).not_forever
    · exact ⟨n, le, inner, s', passes, stuck⟩
  · intro inner s' t v passes goes reaches evaluates
    rw [settles_loop_iff]
    have bound : name ∈ (s'.enter inner).env.own.keys := passes.bound declared
    exact passes.settles (Loop.Stops.inside goes (reaches.redeclares bound evaluates) nofun).settles

/-- The second pass fails, though nothing changes the test. -/
example : ((Stmt.loop (.bool true) [.declare "x" (.bool true)]).exec 2 { env := .root }).1 =
    .failed (.redeclared "x") := by
  decide

end LetWhile
