import LetWhile.Proofs.Code.Frame
import LetWhile.Proofs.Code.Simulation

/-!
The function of a program does what the program does.

Main result: `lower_follows`.
-/
namespace LetWhile

/-- What was printed, in order: kinds and payloads. -/
def State.printed (s : State) : List (Bool × Float) := s.events.filterMap Event.encoded?

theorem State.reverse_encoded (s : State) : s.encoded.reverse = s.printed := by
  rw [State.encoded, State.printed, State.events, List.filterMap_reverse]

namespace Code

/-- Reserves some cells. -/
def Data.reserve (d : Data) (cells : List Cell) : Data :=
  { d with memory := fun c => if c ∈ cells then .blank else d.memory c }

section

variable {f : Function} {slots : List Slot} {code : List Line} {d : Data}

theorem steps_reserve (cells : List Cell) (rest : List Line) :
    Steps f cells.length ⟨cells.map Line.reserve ++ rest, d⟩ ⟨rest, d.reserve cells⟩ := by
  induction cells generalizing d with
  | nil => simpa [Data.reserve] using Steps.none
  | cons c cells ih =>
    have reserved : (d.put c .blank).reserve cells = d.reserve (c :: cells) := by
      simp only [Data.reserve, Data.put, Data.mk.injEq, true_and, and_true]
      funext c'
      by_cases own : c' = c <;> simp [own]
    rw [← reserved]
    exact .more rfl ih

theorem boot_framed (hf : f.lines = framed slots code) :
    f.boot = ⟨(slots.flatMap Slot.cells).map Line.reserve ++
      Line.jump (.goto start) :: .label done :: .jump (.ret (some 0)) :: .label start ::
      (code ++ [Line.jump (.goto done)]), .blank⟩ := by
  simp [Function.boot, hf, framed, behind, entry]

theorem done_suffix (hf : f.lines = framed slots code) :
    .label done :: .jump (.ret (some 0)) :: .label start :: (code ++ [Line.jump (.goto done)]) <:+
      f.lines := by
  rw [hf, framed]
  exact (List.suffix_cons _ _).trans ((List.suffix_append _ _).trans (List.suffix_cons _ _))

theorem start_suffix (hf : f.lines = framed slots code) :
    .label start :: (code ++ [Line.jump (.goto done)]) <:+ f.lines :=
  ((List.suffix_cons _ _).trans (List.suffix_cons _ _)).trans (done_suffix hf)

theorem hosts_framed {made : Nat} (hf : f.lines = framed slots code)
    (labelled : Labelled 1 code made) : Hosts f := by
  have nodup : (labels f.lines).Nodup := hf ▸ labels_nodup slots labelled
  exact ⟨nodup, fun d => ⟨_, f.goto_place nodup (done_suffix hf) d⟩⟩

/-- The entry reserves the storage and goes to the code. -/
theorem steps_entry (hosts : Hosts f) (hf : f.lines = framed slots code) :
    ∃ n d, Steps f n f.boot ⟨code ++ [Line.jump (.goto done)], d⟩ ∧ d.output = [] ∧
      ∀ c : Cell, c.slot ∈ slots → d.memory c ≠ .absent := by
  have arrives := f.goto_place hosts.nodup (start_suffix hf)
    (Data.blank.reserve (slots.flatMap Slot.cells))
  rw [boot_framed hf]
  refine ⟨_, _, (steps_reserve (slots.flatMap Slot.cells) _).append (.goto arrives), rfl, ?_⟩
  intro c there
  have reserved := Cell.mem_cells there
  simp only [Data.reserve, reserved, if_true]
  simp

/-- **The code of a program answers to its run.** -/
theorem program_answers {program : Block} {inside : Emitted Unit} {e : Emitted Label}
    (lowered : Lowered program inside e) (fuel : Nat) :
    Answers (assemble e) fuel (· ∈ slotsOf program) [tableFrom 0 program] [.jump (.goto done)]
      (assemble e).boot (Block.exec fuel program { env := .root }) := by
  have hosts := hosts_framed lowered.lines lowered.fragment.labelled
  obtain ⟨n, d, run, silent, reserved⟩ := steps_entry hosts lowered.lines
  have cleared := steps_clear (f := assemble e) (d := d) (inside.lines ++ [Line.jump (.goto done)])
    fun slot own => reserved ⟨slot, .bound⟩ (lowered.own slot (mem_values_tableFrom own))
  have agrees : Agrees (· ∈ slotsOf program) [tableFrom 0 program] { env := .root }
      (d.unbind (tableFrom 0 program).values) :=
    ⟨opened_matches .nil trivial, silent, rfl, unbind_reserved reserved _⟩
  have layered : Layered (Block.declarations program).length [tableFrom 0 program] := by
    have outside : Layered 0 [] := trivial
    have opened := layered_tableFrom outside program
    rwa [Nat.zero_add] at opened
  have place := (List.suffix_cons _ _).trans (start_suffix lowered.lines)
  rw [List.append_assoc] at place run
  have simulates : BlockSimulates (assemble e) fuel (· ∈ slotsOf program) program :=
    statements_simulate hosts program
  have answers := simulates _ _ lowered.within layered inside lowered.statements lowered.inner _
    ((List.suffix_append _ _).trans place) _ _ agrees
  exact answers.later (run.append cleared)

end

/-- The function ends as the program did, and has printed the same. A stop announces the failure. -/
def Function.Follows (f : Function) : Outcome × State → Prop
  | (.finished, s) => f.Ends (.returned (some 0)) s.printed
  | (.returned _, s) => f.Ends (.returned (some 0)) s.printed
  | (.failed _ failure, s) => ∃ message, f.Ends (.trapped message) s.printed ∧
    Announces message failure
  | (.outOfFuel, _) => False

theorem Function.Follows.not_diverges {f : Function} {result : Outcome × State}
    (h : f.Follows result) : ¬ f.Diverges := by
  obtain ⟨outcome, s⟩ := result
  cases outcome with
  | finished => exact Function.Ends.not_diverges h (by simp)
  | returned v => exact Function.Ends.not_diverges h (by simp)
  | failed k failure =>
    obtain ⟨message, ends, _⟩ := h
    exact ends.not_diverges (by simp)
  | outOfFuel => exact h.elim

section

variable {f : Function} {fuel : Nat} {known : Slot → Prop} {scope : Scope Slot} {b : List Stmt}
  {s : State}

/-- A function whose code answers to the statements of a program follows the program. -/
theorem follows_of_answers (hosts : Hosts f)
    (h : Answers f fuel known scope [.jump (.goto done)] f.boot (Block.exec fuel b s))
    (terminates : (Block.run fuel b s).1 ≠ .outOfFuel) : f.Follows (Block.run fuel b s) := by
  obtain ⟨k, same⟩ := runFrom_eq fuel 1 b s
  rw [Block.run, same] at terminates ⊢
  revert h terminates
  obtain ⟨ending, s'⟩ := Block.exec fuel b s
  intro h terminates
  cases ending with
  | normal =>
    obtain ⟨n, d, run, agrees⟩ := h
    obtain ⟨more, arrives⟩ := hosts.returns d
    refine ⟨n + 1, _, run.append (.goto arrives), rfl, ?_⟩
    rw [← s'.reverse_encoded, ← agrees.output]
  | returned v =>
    obtain ⟨n, m, run, returned, output⟩ := h
    refine ⟨n, m, run, returned, ?_⟩
    rw [output]
    exact (s'.emit (.returned k v)).reverse_encoded
  | failed failure =>
    obtain ⟨n, m, message, run, trapped, announces, output⟩ := h
    refine ⟨message, ⟨n, m, run, trapped, ?_⟩, announces⟩
    rw [output]
    exact s'.reverse_encoded
  | outOfFuel => exact absurd rfl terminates

theorem runs_on_of_answers
    (h : Answers f fuel known scope [.jump (.goto done)] f.boot (Block.exec fuel b s))
    (out : (Block.run fuel b s).1 = .outOfFuel) : ∃ m, Steps f fuel f.boot m := by
  obtain ⟨k, same⟩ := runFrom_eq fuel 1 b s
  rw [Block.run, same] at out
  revert h out
  obtain ⟨ending, s'⟩ := Block.exec fuel b s
  intro h out
  cases ending with
  | outOfFuel =>
    obtain ⟨n, m, le, run⟩ := h
    exact run.take le
  | _ => cases out

end

/-- **A program and its function do the same.** A program without holes is lowered. When its run
ends, however long that takes, so does that of the function, which returns if the program comes to
its end or returns, and stops with the beginning of the message if it fails; both have printed the
same. The function runs forever exactly if the program does. -/
theorem lower_follows (program : Block) (whole : Block.isWhole program) :
    ∃ f, lower program = .ok f ∧
      (∀ fuel, (Block.run fuel program { env := .root }).1 ≠ .outOfFuel →
        f.Follows (Block.run fuel program { env := .root })) ∧
      ((∀ fuel, (Block.run fuel program { env := .root }).1 = .outOfFuel) ↔ f.Diverges) := by
  obtain ⟨inside, e, lowered⟩ := lower_emits_framed whole
  have hosts := hosts_framed lowered.lines lowered.fragment.labelled
  have answers := program_answers lowered
  refine ⟨assemble e, lowered.lower, fun fuel => follows_of_answers hosts (answers fuel), ?_⟩
  constructor
  · intro never fuel
    exact runs_on_of_answers (answers fuel) (never fuel)
  · intro diverges fuel
    by_contra terminates
    exact (follows_of_answers hosts (answers fuel) terminates).not_diverges diverges

/-- The passes of a loop share a frame, so that the second cannot declare its name again. -/
def redeclaring : Block :=
  [.declare "i" (.number 0),
    .loop (.binary .less (.variable "i") (.number 2))
      [.declare "j" (.variable "i"), .print (.variable "j"),
        .assign "i" (.binary .add (.variable "i") (.number 1))]]

theorem lower_follows_redeclaring :
    Block.isWhole redeclaring ∧ ∃ f, lower redeclaring = .ok f ∧
      ∃ message, f.Ends (.trapped message) [(false, 0)] ∧
        Announces message (.redeclared "j") := by
  obtain ⟨f, lowered, follows, _⟩ := lower_follows redeclaring (by decide)
  have fails : (Block.run 2 redeclaring { env := .root }).1 = .failed 2 (.redeclared "j") := by
    decide
  have printed : (Block.run 2 redeclaring { env := .root }).2.printed = [(false, 0)] := by
    decide
  have ends := follows 2 (by simp [fails])
  rw [← Prod.eta (Block.run 2 redeclaring { env := .root }), fails] at ends
  obtain ⟨message, ends, announces⟩ := ends
  exact ⟨by decide, f, lowered, message, printed ▸ ends, announces⟩

end Code

end LetWhile
