import LetWhile.Proofs.Code.Frame
import LetWhile.Proofs.Code.Names

/-!
The function of a program is well formed, whatever its variables are called.

Main result: `lower_wellFormed`.
-/
namespace LetWhile.Code

def Operand.text? : Operand → Option String
  | .text s => some s
  | _ => none

/-- The texts that some lines refer to. -/
def requested (lines : List Line) : List String :=
  lines.flatMap fun x => x.operands.filterMap Operand.text?

/-- What a function has to meet that was made from a program with so many labels. -/
structure WellFormed (program : Block) (made : Nat) (f : Function) : Prop where
  /-- The entry comes first. It reserves three cells for each slot and goes to the code. -/
  first : f.listing.head? =
    some ⟨entry,
      ((slotsOf program).flatMap Slot.cells).map Line.reserve ++ [Line.jump (.goto start)]⟩
  /-- No other block reserves storage. -/
  noAlloca : ∀ b ∈ f.listing, b.label ≠ entry → ∀ x ∈ b.lines, x.isAlloca = false
  /-- Every label that was made starts one block, besides the entry and the end. -/
  ranks : f.listing.map (fun b => b.label.rank) = 0 :: List.range (made + 1)
  /-- A block ends with a jump and has no other. -/
  terminated : ∀ b ∈ f.listing, ∃ inner j,
    b.lines = inner ++ [Line.jump j] ∧ ∀ x ∈ inner, x.isJump = false
  /-- Jumps go to blocks of the function and never to the entry. -/
  jumps : ∀ b ∈ f.listing, ∀ j, .jump j ∈ b.lines → ∀ l ∈ j.targets,
    l ≠ entry ∧ ∃ b' ∈ f.listing, b'.label = l
  /-- The names of all blocks and all storage differ. -/
  names : (f.listing.map (fun b => b.label.text) ++
    ((slotsOf program).flatMap Slot.cells).map Cell.name).Nodup
  /-- Nothing is given a value twice. -/
  once : (f.lines.filterMap Line.defines?).Nodup
  /-- What a line of a reachable block reads was given its value further up in the block, or in
  another block that dominates it. -/
  defined : ∀ b ∈ f.listing, f.Reachable b.label → ∀ sofar x rest, b.lines = sofar ++ x :: rest →
    ∀ o ∈ x.operands, o.isResult → (∃ y ∈ sofar, y.defines? = some o) ∨
      ∃ b' ∈ f.listing, b'.label ≠ b.label ∧ f.Dominates b'.label b.label ∧
        ∃ y ∈ b'.lines, y.defines? = some o
  /-- The texts are those that are referred to, each once. -/
  texts : (textsOf f).Nodup ∧ ∀ s, s ∈ textsOf f ↔
    s ∈ requested (Builtin.print.lines ++ Builtin.trap.lines ++ f.lines)
  /-- Every text has storage with a name of its own and one byte more than the text. -/
  stored : (globals (textsOf f)).map Global.text = textsOf f ∧
    ((globals (textsOf f)).map Global.name).Nodup ∧
    ∀ g ∈ globals (textsOf f), g.size = g.text.utf8ByteSize + 1

section Texts

theorem requested_nil : requested [] = [] := rfl

theorem requested_append (a b : List Line) : requested (a ++ b) = requested a ++ requested b :=
  List.flatMap_append

theorem requested_cons (x : Line) (rest : List Line) :
    requested (x :: rest) = x.operands.filterMap Operand.text? ++ requested rest :=
  List.flatMap_cons

theorem Ready.no_text {known : Slot → Prop} {lo hi : Nat} {operands : List Operand}
    (ready : ∀ o ∈ operands, Ready known lo hi o) : operands.filterMap Operand.text? = [] := by
  rw [List.filterMap_eq_nil_iff]
  intro o ho
  have := ready o ho
  cases o with
  | text s => exact this.elim
  | _ => rfl

/-- Only traps refer to texts. -/
theorem Flows.mem_requested {known : Slot → Prop} {lo hi lo' hi' : Nat} {lines : List Line}
    (flows : Flows known lo hi lines lo' hi') (s : String) :
    s ∈ requested lines ↔ .act (.trap (.text s)) ∈ lines := by
  induction flows with
  | nil => simp [requested]
  | set _ ready _ ih =>
    have none := Ready.no_text ready
    rw [requested_cons, Line.operands, none]
    simpa using ih
  | @act _ _ e _ _ _ ready _ ih =>
    have none := Ready.no_text ready
    have other : e ≠ .trap (.text s) := by
      rintro rfl
      exact ready (.text s) List.mem_cons_self
    rw [requested_cons, Line.operands, none]
    simpa [other.symm] using ih
  | trap _ ih =>
    simp [trapLines, Line.operands, Effect.operands, Jump.operands, Operand.text?, requested, ← ih]
  | guard ready _ ih =>
    have none := Ready.no_text (List.forall_mem_singleton.2 ready)
    simp [guardLines, Line.operands, Effect.operands, Jump.operands, Operand.text?, requested, none,
      ← ih]
  | jump ready _ ih =>
    have none := Ready.no_text ready
    rw [requested_cons, requested_cons, Line.operands, none]
    simpa [Line.operands] using ih

theorem textName_injective {m n : Nat} (h : textName m = textName n) : m = n := by
  have lists := congrArg String.toList h
  exact toDigits_injective (by simpa [textName, toString] using lists)

theorem mem_messages {f : Function} {s : String} :
    s ∈ f.messages ↔ .act (.trap (.text s)) ∈ f.lines := by
  rw [Function.messages, List.mem_filterMap]
  constructor
  · rintro ⟨x, hx, same⟩
    split at same
    · obtain rfl := Option.some.inj same
      exact hx
    · cases same
  · intro h
    exact ⟨_, h, rfl⟩

theorem mem_builtin_texts (s : String) :
    s ∈ Builtin.texts ↔ s ∈ requested (Builtin.print.lines ++ Builtin.trap.lines) := by
  have listed : Builtin.texts ⊆ requested (Builtin.print.lines ++ Builtin.trap.lines) := by decide
  have all : requested (Builtin.print.lines ++ Builtin.trap.lines) ⊆ Builtin.texts := by decide
  exact ⟨fun h => listed h, fun h => all h⟩

variable {f : Function} {slots : List Slot} {code : List Line}

theorem mem_requested_framed (hf : f.lines = framed slots code) {known : Slot → Prop}
    {lo hi lo' hi' : Nat} (flows : Flows known lo hi code lo' hi') (s : String) :
    s ∈ requested f.lines ↔ s ∈ f.messages := by
  have reserves (cells : List Cell) : requested (cells.map Line.reserve) = [] := by
    simp [requested, Line.operands]
  rw [mem_messages, hf, framed, requested_cons, requested_append, reserves]
  simp [requested_cons, requested_append, requested_nil, flows.mem_requested s, Line.operands,
    Jump.operands]

theorem mem_textsOf_framed (hf : f.lines = framed slots code) {known : Slot → Prop}
    {lo hi lo' hi' : Nat} (flows : Flows known lo hi code lo' hi') (s : String) :
    s ∈ textsOf f ↔ s ∈ requested (Builtin.print.lines ++ Builtin.trap.lines ++ f.lines) := by
  rw [textsOf, List.mem_eraseDups, List.mem_append, requested_append, List.mem_append,
    mem_builtin_texts, mem_requested_framed hf flows]

theorem globals_stored (texts : List String) :
    (globals texts).map Global.text = texts ∧ ((globals texts).map Global.name).Nodup ∧
      ∀ g ∈ globals texts, g.size = g.text.utf8ByteSize + 1 := by
  refine ⟨?_, ?_, ?_⟩
  · rw [globals, List.map_map]
    exact List.zipIdx_map_fst 0 texts
  · have numbered : (globals texts).map Global.name = (List.range texts.length).map textName := by
      rw [globals, List.map_map, List.range_eq_range', ← List.zipIdx_map_snd 0 texts, List.map_map]
      rfl
    rw [numbered]
    exact List.nodup_range.map fun m n => textName_injective
  · simp only [globals, List.mem_map, Prod.exists]
    rintro _ ⟨s, k, _, rfl⟩
    rfl

end Texts

section Frame

variable {f : Function} {slots : List Slot} {code : List Line} {made : Nat}

theorem mem_lines_of_mem_listing {b : BasicBlock} (hb : b ∈ f.listing) {x : Line}
    (hx : x ∈ b.lines) : x ∈ f.lines := by
  obtain ⟨before, rest, split, _, _⟩ := blocks_split (mem_listing.1 hb)
  rw [split]
  simp [hx]

theorem jumps_framed (hf : f.lines = framed slots code) (labelled : Labelled 1 code made)
    {b : BasicBlock} (hb : b ∈ f.listing) {j : Jump} (hj : .jump j ∈ b.lines) {l : Label}
    (target : l ∈ j.targets) : l ≠ entry ∧ ∃ b' ∈ f.listing, b'.label = l := by
  have there : l ∈ targets (framed slots code) :=
    mem_targets.2 ⟨.jump j, hf ▸ mem_lines_of_mem_listing hb hj, target⟩
  obtain ⟨known, notEntry⟩ := target_mem_labels slots labelled there
  refine ⟨notEntry, ?_⟩
  rw [← hf, ← map_label_blocks, List.mem_map] at known
  obtain ⟨b', hb', same⟩ := known
  exact ⟨b', mem_listing.2 hb', same⟩

theorem names_framed (hf : f.lines = framed slots code) (labelled : Labelled 1 code made)
    (distinct : slots.Nodup) :
    (f.listing.map (fun b => b.label.text) ++
      (slots.flatMap Slot.cells).map Cell.name).Nodup := by
  have texts : f.listing.map (fun b => b.label.text) =
      (f.listing.map BasicBlock.label).map Label.text := by
    rw [List.map_map]
    rfl
  rw [texts]
  refine names_nodup (listing_labels hf labelled) ?_ (nodup_cells distinct)
  simp only [List.mem_map]
  rintro l ⟨b, hb, rfl⟩
  have known : b.label ∈ labels f.lines := by
    rw [← map_label_blocks, List.mem_map]
    exact ⟨b, mem_listing.1 hb, rfl⟩
  rw [hf, labels_framed, List.mem_cons, List.mem_cons, List.mem_cons] at known
  obtain first | last | code | inside := known
  · exact .inl first
  · exact .inr (.inl last)
  · exact .inr (.inr ⟨"body", by decide, by rw [code]; rfl⟩)
  · exact .inr (.inr (labelled.stems _ inside))

theorem once_framed (hf : f.lines = framed slots code) (distinct : slots.Nodup)
    {known : Slot → Prop} {lo lo' hi' : Nat} (flows : Flows known lo 0 code lo' hi') :
    (f.lines.filterMap Line.defines?).Nodup := by
  have all : f.lines.filterMap Line.defines? =
      (slots.flatMap Slot.cells).map .cell ++ (List.range' 0 hi').map .reg := by
    have reserves : ((slots.flatMap Slot.cells).map Line.reserve).filterMap Line.defines? =
        (slots.flatMap Slot.cells).map .cell := by
      rw [List.filterMap_map, ← List.filterMap_eq_map]
      rfl
    have code := flows.defines.2
    rw [Nat.sub_zero] at code
    rw [hf, framed, List.filterMap_cons_none rfl, List.filterMap_append, reserves]
    simp [List.filterMap_cons, Line.defines?, code]
  rw [all, List.nodup_append]
  refine ⟨?_, ?_, ?_⟩
  · exact (nodup_cells distinct).map fun _ _ => Operand.cell.inj
  · exact List.Nodup.map (fun _ _ => Operand.reg.inj) List.nodup_range'
  · simp only [List.mem_map]
    rintro _ ⟨c, _, rfl⟩ _ ⟨r, _, rfl⟩
    simp

theorem defined_framed (hf : f.lines = framed slots code) (labelled : Labelled 1 code made)
    {lo' hi' : Nat} (flows : Flows (· ∈ slots) 0 0 code lo' hi') {b : BasicBlock}
    (hb : b ∈ f.listing) (reachable : f.Reachable b.label) {sofar rest : List Line} {x : Line}
    (split : b.lines = sofar ++ x :: rest) {o : Operand} (ho : o ∈ x.operands)
    (result : o.isResult) :
    (∃ y ∈ sofar, y.defines? = some o) ∨
      ∃ b' ∈ f.listing, b'.label ≠ b.label ∧ f.Dominates b'.label b.label ∧
        ∃ y ∈ b'.lines, y.defines? = some o := by
  obtain ⟨before, behind, whole, plain, _⟩ := blocks_split (mem_listing.1 hb)
  have place : f.lines = (before ++ Line.label b.label :: sofar) ++ x :: (rest ++ behind) := by
    rw [whole, split]
    simp
  have reads := reads_framed hf labelled flows
  rw [place, reads_append] at reads
  have here := reads.2.1 o ho result before b.label sofar rfl fun y hy =>
    plain y (by simp [split, hy])
  obtain own | above := here
  · exact .inl own
  · obtain ⟨b', hb', earlier, dominates, defines⟩ := above reachable
    refine .inr ⟨b', hb', ?_, dominates, defines⟩
    have nodup := labels_nodup slots labelled
    rw [← hf, whole, labels_append, List.nodup_append] at nodup
    exact nodup.2.2 _ earlier _ (by simp)

end Frame

/-- A fragment in the frame makes a function that is well formed. -/
theorem wellFormed_framed {program : Block} {f : Function} {code : List Line} {c d : Counters}
    (hf : f.lines = framed (slotsOf program) code)
    (fragment : Fragment (· ∈ slotsOf program) c code d) (labels : c.labels = 1)
    (regs : c.regs = 0) : WellFormed program d.labels f := by
  obtain ⟨lo, _, flows⟩ := fragment.flows 0 (by omega)
  have labelled := fragment.labelled
  rw [labels] at labelled
  rw [regs] at flows
  have distinct : (slotsOf program).Nodup := nodup_slotsFrom _ _
  constructor
  · exact listing_entry hf
  · intro b hb
    rw [mem_listing, hf] at hb
    exact noAlloca_framed flows hb
  · exact listing_ranks hf labelled
  · intro b hb
    rw [mem_listing, hf] at hb
    exact terminated flows hb
  · intro b hb j hj l target
    exact jumps_framed hf labelled hb hj target
  · exact names_framed hf labelled distinct
  · exact once_framed hf distinct flows
  · intro b hb reachable sofar x rest split o ho result
    exact defined_framed hf labelled flows hb reachable split ho result
  · exact ⟨nodup_eraseDups _, mem_textsOf_framed hf flows⟩
  · exact globals_stored _

/-- **The function of a whole program is well formed.** There is one for every program without
holes, whatever its variables are called. -/
theorem lower_wellFormed (program : Block) (whole : Block.isWhole program) :
    ∃ e, (body program).run {} = .ok e ∧ lower program = .ok (assemble e) ∧
      WellFormed program e.next.labels (assemble e) := by
  obtain ⟨inside, e, lowered⟩ := lower_emits_framed whole
  refine ⟨e, lowered.body, lowered.lower, ?_⟩
  rw [lowered.next]
  exact wellFormed_framed lowered.lines lowered.fragment rfl rfl

/-- A variable called like a block, declared again in a loop, and one that is declared nowhere. -/
def shadowed : Block :=
  [.declare "if.then" (.number 1),
    .loop (.binary .less (.variable "if.then") (.number 3))
      [.declare "if.then" (.bool true), .assign "x" (.variable "if.then")],
    .result (.variable "if.then")]

theorem lower_wellFormed_shadowed :
    Block.isWhole shadowed ∧
      ∃ e, (body shadowed).run {} = .ok e ∧ lower shadowed = .ok (assemble e) ∧
        WellFormed shadowed e.next.labels (assemble e) :=
  ⟨by decide, lower_wellFormed shadowed (by decide)⟩

end LetWhile.Code
