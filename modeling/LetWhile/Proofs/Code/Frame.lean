import LetWhile.Proofs.Code.Dominance
import Mathlib.Data.List.Chain
import Mathlib.Data.List.Nodup

/-!
The frame around the code of a program: the entry, which reserves the storage, the end, and the
label of the first block. What holds of a fragment holds of the function made from it.

* `labels_nodup`, `labels_rank`   the labels of the function
* `target_mem_labels`             the blocks it jumps to
* `terminated`                    a block ends with its only jump
* `reads_framed`                  it reads only what is defined
-/
namespace LetWhile.Code

/-- The lines of a function with the given slots and code. -/
def framed (slots : List Slot) (code : List Line) : List Line :=
  .label entry :: ((slots.flatMap Slot.cells).map Line.reserve ++
    Line.jump (.goto start) :: .label done :: .jump (.ret (some 0)) ::
    .label start :: (code ++ [Line.jump (.goto done)]))

@[simp] theorem labels_reserves (cells : List Cell) : labels (cells.map Line.reserve) = [] := by
  simp [labels, Line.label?]

@[simp] theorem targets_reserves (cells : List Cell) : targets (cells.map Line.reserve) = [] := by
  simp [targets, Line.targets]

theorem labels_framed (slots : List Slot) (code : List Line) :
    labels (framed slots code) = entry :: done :: start :: labels code := by
  simp [framed]

theorem targets_framed (slots : List Slot) (code : List Line) :
    targets (framed slots code) = start :: (targets code ++ [done]) := by
  simp [framed, Jump.targets]

section

variable (slots : List Slot) {code : List Line} {made : Nat}

theorem labels_rank (h : Labelled 1 code made) :
    ((labels (framed slots code)).map Label.rank).Perm (0 :: List.range (made + 1)) := by
  have le := h.le
  rw [List.perm_iff_count]
  intro i
  have counted : (List.range (made + 1)).count i = if i < made + 1 then 1 else 0 := by
    rw [List.nodup_range.count]
    simp
  rw [labels_framed]
  simp only [List.map_cons, List.count_cons, h.once, counted, entry, done, start, Label.rank,
    beq_iff_eq]
  grind

theorem start_notMem_labels (h : Labelled 1 code made) : start ∉ labels code := by
  intro there
  have once := h.once 1
  have mem : 1 ∈ (labels code).map Label.rank := List.mem_map.2 ⟨start, there, rfl⟩
  have := List.one_le_count_iff.2 mem
  simp at once
  omega

theorem nodup_labels_code (h : Labelled 1 code made) : (labels code).Nodup := by
  apply List.Nodup.of_map Label.rank
  rw [List.nodup_iff_count_le_one]
  intro i
  rw [h.once]
  split <;> omega

theorem labels_nodup (h : Labelled 1 code made) : (labels (framed slots code)).Nodup := by
  have plain_notMem (name : String) : Label.plain name ∉ labels code := by
    intro there
    obtain ⟨stem, _, made⟩ := h.stems _ there
    simp at made
  rw [labels_framed]
  simp only [List.nodup_cons, List.mem_cons, not_or]
  exact ⟨⟨by decide, by decide, plain_notMem _⟩, ⟨by decide, plain_notMem _⟩,
    start_notMem_labels h, nodup_labels_code h⟩

/-- No label has more jumps to it than allowed. -/
theorem arrivals_framed (h : Labelled 1 code made) (stem : String) (n : Nat) :
    (targets (framed slots code)).count (.numbered stem n) ≤
      (Label.numbered stem n).arrivals := by
  have notDone : Label.numbered stem n ≠ done := by simp [done]
  have inside := h.arrivals _ notDone
  rw [targets_framed, List.count_cons, List.count_append, List.count_singleton]
  by_cases first : Label.numbered stem n = start
  · -- The entry's jump is the only one there.
    rw [first, List.count_eq_zero_of_not_mem (start_notMem_labels h)] at inside
    have none : (targets code).count start = 0 := Nat.le_zero.1 inside
    rw [first, none]
    decide
  · have unique := List.nodup_iff_count_le_one.1 (nodup_labels_code h) (.numbered stem n)
    have bound := Nat.mul_le_mul_left (Label.numbered stem n).arrivals unique
    simp only [beq_iff_eq, Ne.symm first, notDone.symm, if_false]
    omega

/-- Every jump goes to a block of the function, and none to its entry. -/
theorem target_mem_labels (h : Labelled 1 code made) {l : Label}
    (target : l ∈ targets (framed slots code)) :
    l ∈ labels (framed slots code) ∧ l ≠ entry := by
  rw [targets_framed, List.mem_cons, List.mem_append, List.mem_singleton] at target
  rw [labels_framed]
  obtain rfl | inside | rfl := target
  · exact ⟨by simp, by decide⟩
  · by_cases last : l = done
    · exact ⟨by simp [last], by simp [last, done, entry]⟩
    · have jumps := List.one_le_count_iff.2 inside
      have arrivals := h.arrivals l last
      have there : l ∈ labels code := by
        apply List.one_le_count_iff.1
        by_contra absent
        have zero : (labels code).count l = 0 := by omega
        rw [zero] at arrivals
        omega
      obtain ⟨stem, _, made⟩ := h.stems l there
      exact ⟨by simp [there], by rw [made]; simp [entry]⟩
  · exact ⟨by simp, by decide⟩

end

/-- A label follows a jump, and nothing else does. -/
def Meets (a b : Line) : Prop := a.isJump = b.isLabel

theorem Flows.chain {known : Slot → Prop} {lo hi lo' hi' : Nat} {lines : List Line}
    (flows : Flows known lo hi lines lo' hi') {tail : List Line}
    (closed : ∀ y, y.isJump = false → List.IsChain Meets (y :: tail)) (x : Line)
    (plain : x.isJump = false) : List.IsChain Meets (x :: (lines ++ tail)) := by
  induction flows generalizing x with
  | nil => exact closed x plain
  | set _ _ _ ih => exact .cons_cons plain (ih _ rfl)
  | act _ _ ih => exact .cons_cons plain (ih _ rfl)
  | trap _ ih => exact .cons_cons plain (.cons_cons rfl (.cons_cons rfl (ih _ rfl)))
  | guard _ _ ih =>
    exact .cons_cons plain (.cons_cons rfl (.cons_cons rfl (.cons_cons rfl (.cons_cons rfl
      (ih _ rfl)))))
  | jump _ _ ih => exact .cons_cons plain (.cons_cons rfl (ih _ rfl))

theorem chain_reserves (cells : List Cell) {tail : List Line}
    (closed : ∀ y, y.isJump = false → List.IsChain Meets (y :: tail)) (x : Line)
    (plain : x.isJump = false) :
    List.IsChain Meets (x :: (cells.map Line.reserve ++ tail)) := by
  induction cells generalizing x with
  | nil => exact closed x plain
  | cons c rest ih => exact .cons_cons plain (ih _ rfl)

/-- With one more label behind it, every block is followed by a label. -/
theorem chain_framed (slots : List Slot) {known : Slot → Prop} {lo hi lo' hi' : Nat}
    {code : List Line} (flows : Flows known lo hi code lo' hi') :
    List.IsChain Meets (framed slots code ++ [Line.label entry]) := by
  have last : ∀ y, Line.isJump y = false →
      List.IsChain Meets (y :: ([Line.jump (.goto done)] ++ [Line.label entry])) :=
    fun y plain => .cons_cons plain (.cons_cons rfl (.singleton _))
  have inside : ∀ y, Line.isJump y = false → List.IsChain Meets
      (y :: (.jump (.goto start) :: .label done :: .jump (.ret (some 0)) ::
        .label start :: (code ++ ([Line.jump (.goto done)] ++ [Line.label entry])))) :=
    fun y plain => .cons_cons plain (.cons_cons rfl (.cons_cons rfl (.cons_cons rfl
      (flows.chain last (.label start) rfl))))
  have all := chain_reserves (slots.flatMap Slot.cells) inside (.label entry) rfl
  simpa [framed] using all

theorem ends_with_jump {x : Line} {body rest : List Line}
    (chain : List.IsChain Meets (x :: (body ++ rest))) (plain : x.isJump = false)
    (noLabels : ∀ y ∈ body, y.isLabel = false) (label : ∃ l more, rest = .label l :: more) :
    ∃ inner j, body = inner ++ [Line.jump j] ∧ ∀ y ∈ inner, y.isJump = false := by
  induction body generalizing x with
  | nil =>
    obtain ⟨l, more, rfl⟩ := label
    have : Meets x (.label l) := (List.isChain_cons_cons.1 chain).1
    simp [Meets, plain, Line.isLabel] at this
  | cons y body ih =>
    have chain' := (List.isChain_cons_cons.1 chain).2
    cases jumps : y.isJump with
    | false =>
      obtain ⟨inner, j, rfl, rest⟩ := ih chain' jumps fun z hz =>
        noLabels z (List.mem_cons_of_mem _ hz)
      refine ⟨y :: inner, j, rfl, ?_⟩
      simp only [List.mem_cons]
      rintro z (rfl | hz)
      · exact jumps
      · exact rest z hz
    | true =>
      cases body with
      | nil =>
        cases y with
        | jump j => exact ⟨[], j, rfl, by simp⟩
        | _ => simp [Line.isJump] at jumps
      | cons z body =>
        have meets : Meets y z := (List.isChain_cons_cons.1 chain').1
        have := noLabels z (by simp)
        simp [Meets, jumps, this] at meets

/-- Every block ends with its only jump. -/
theorem terminated {known : Slot → Prop} {lo hi lo' hi' : Nat} {slots : List Slot}
    {code : List Line} (flows : Flows known lo hi code lo' hi') {b : BasicBlock}
    (hb : b ∈ blocks (framed slots code)) :
    ∃ inner j, b.lines = inner ++ [Line.jump j] ∧ ∀ y ∈ inner, y.isJump = false := by
  obtain ⟨before, rest, split, plain, starts⟩ := blocks_split hb
  have chain := chain_framed slots flows
  rw [split, List.append_assoc, List.cons_append, List.append_assoc] at chain
  apply ends_with_jump chain.right_of_append rfl plain
  cases rest with
  | nil => exact ⟨entry, [], rfl⟩
  | cons x rest =>
    have := starts x rfl
    cases x with
    | label l => exact ⟨l, rest ++ [Line.label entry], rfl⟩
    | _ => simp [Line.isLabel] at this

/-- Registers are given out one after the other. -/
theorem Flows.defines {known : Slot → Prop} {lo hi lo' hi' : Nat} {lines : List Line}
    (flows : Flows known lo hi lines lo' hi') :
    hi ≤ hi' ∧ lines.filterMap Line.defines? = (List.range' hi (hi' - hi)).map .reg := by
  induction flows with
  | nil => simp
  | set _ _ _ ih =>
    obtain ⟨le, defines⟩ := ih
    refine ⟨by omega, ?_⟩
    rename_i lo hi i rest lo' hi' _ _ _
    have more : hi' - hi = (hi' - (hi + 1)) + 1 := by omega
    rw [more, List.range'_succ, List.map_cons, ← defines]
    rfl
  | act _ _ ih => exact ih
  | trap _ ih => exact ih
  | guard _ _ ih => exact ih
  | jump _ _ ih => exact ih

section

variable {f : Function} {slots : List Slot} {code : List Line}

theorem Cell.mem_cells {c : Cell} (h : c.slot ∈ slots) : c ∈ slots.flatMap Slot.cells := by
  refine List.mem_flatMap.2 ⟨c.slot, h, ?_⟩
  obtain ⟨slot, part⟩ := c
  cases part <;> simp [Slot.cells]

theorem entry_mem_listing (hf : f.lines = framed slots code) :
    ⟨entry, (slots.flatMap Slot.cells).map Line.reserve ++ [Line.jump (.goto start)]⟩ ∈
      f.listing := by
  rw [mem_listing, hf]
  have plain : ∀ x ∈ (slots.flatMap Slot.cells).map Line.reserve ++ [Line.jump (.goto start)],
      x.isLabel = false := by
    simp only [List.mem_append, List.mem_map, List.mem_singleton]
    rintro x (⟨c, _, rfl⟩ | rfl)
    · rfl
    · rfl
  have starts : StartsBlock (.label done :: .jump (.ret (some 0)) :: .label start ::
      (code ++ [Line.jump (.goto done)])) := by
    simp [StartsBlock, Line.isLabel]
  simpa [framed] using mem_blocks [] (l := entry) plain starts

/-- The storage of the slots is reserved on every way to the code. -/
theorem cell_defined (hf : f.lines = framed slots code) {place rest : List Line}
    (split : f.lines = place ++ rest) (started : start ∈ labels place) {c : Cell}
    (known : c.slot ∈ slots) : Defined f place (.cell c) := by
  rintro before l since rfl plain
  have order : labels before ++ l :: labels rest = entry :: done :: start :: labels code := by
    rw [← labels_framed slots code, ← hf, split]
    simp [labels_eq_nil plain]
  have above : entry ∈ labels before := by
    cases first : labels before with
    | nil =>
      -- In the entry itself, the first block of the program is still to come.
      rw [first, List.nil_append] at order
      rw [labels_append, first, labels_label, labels_eq_nil plain,
        (List.cons.inj order).1] at started
      simp [start, entry] at started
    | cons a labels =>
      rw [first, List.cons_append] at order
      simp [(List.cons.inj order).1]
  refine .inr fun _ => ⟨_, entry_mem_listing hf, above, f.entry_dominates l, .reserve c, ?_, rfl⟩
  exact List.mem_append_left _ (List.mem_map.2 ⟨c, Cell.mem_cells known, rfl⟩)

theorem reads_framed (hf : f.lines = framed slots code) {made hi : Nat} {lo' : Nat}
    (labelled : Labelled 1 code made) (flows : Flows (· ∈ slots) 0 0 code lo' hi) :
    Reads f [] f.lines := by
  have split : f.lines = (Line.label entry :: (slots.flatMap Slot.cells).map Line.reserve ++
      [Line.jump (.goto start), .label done, .jump (.ret (some 0)), .label start]) ++
      (code ++ [Line.jump (.goto done)]) := by
    simp [hf, framed]
  have inside := flows.reads (f := f) (hf ▸ arrivals_framed slots labelled)
    (fun place rest split started c known => cell_defined hf split started known) _ _ split
    (by simp) fun r _ high => absurd high (Nat.not_lt_zero r)
  rw [split]
  refine reads_append.2 ⟨?_, reads_append.2 ⟨inside.1, ?_⟩⟩
  · apply reads_of_no_operands
    simp only [List.cons_append, List.mem_cons, List.mem_append, List.mem_map, List.not_mem_nil,
      or_false]
    rintro x (rfl | ⟨c, _, rfl⟩ | rfl | rfl | rfl | rfl) <;> rfl
  · exact reads_of_no_operands (by simp [Line.operands, Jump.operands])

/-- The entry is listed first, and then come the end and the code. -/
theorem blocks_framed (slots : List Slot) (code : List Line) :
    blocks (framed slots code) =
      ⟨entry, (slots.flatMap Slot.cells).map Line.reserve ++ [Line.jump (.goto start)]⟩ ::
        ⟨done, [.jump (.ret (some 0))]⟩ ::
        blocks (.label start :: (code ++ [Line.jump (.goto done)])) := by
  have skip (cells : List Cell) (rest : List Line) :
      blocks (cells.map Line.reserve ++ rest) = blocks rest := by
    induction cells with
    | nil => rfl
    | cons c cells ih => exact ih
  have own (cells : List Cell) (rest : List Line) :
      (cells.map Line.reserve ++ Line.jump (.goto start) :: .label done :: rest).takeWhile
        (fun x => !x.isLabel) = cells.map Line.reserve ++ [Line.jump (.goto start)] := by
    simp [Line.isLabel]
  rw [framed, blocks, own, skip]
  rfl

def BasicBlock.notAfter (a b : BasicBlock) : Bool := decide (a.label.rank ≤ b.label.rank)

theorem BasicBlock.notAfter_trans (a b c : BasicBlock) :
    a.notAfter b → b.notAfter c → a.notAfter c := by
  simp only [notAfter, decide_eq_true_eq]
  omega

theorem BasicBlock.notAfter_total (a b : BasicBlock) : a.notAfter b || b.notAfter a := by
  simp only [notAfter, Bool.or_eq_true, decide_eq_true_eq]
  omega

theorem listing_entry (hf : f.lines = framed slots code) :
    f.listing.head? =
      some ⟨entry, (slots.flatMap Slot.cells).map Line.reserve ++ [Line.jump (.goto start)]⟩ := by
  have listing : f.listing = (blocks f.lines).mergeSort BasicBlock.notAfter := rfl
  rw [listing, hf, blocks_framed]
  obtain ⟨first, last, sorted, _, later⟩ :=
    List.mergeSort_cons BasicBlock.notAfter_trans BasicBlock.notAfter_total
      ⟨entry, (slots.flatMap Slot.cells).map Line.reserve ++ [Line.jump (.goto start)]⟩
      (⟨done, [.jump (.ret (some 0))]⟩ ::
        blocks (.label start :: (code ++ [Line.jump (.goto done)])))
  have none : first = [] := by
    apply List.eq_nil_iff_forall_not_mem.2
    intro b hb
    have := later b hb
    simp [BasicBlock.notAfter, entry, Label.rank] at this
  rw [sorted, none]
  rfl

/-- Each label that was made starts one block, and the blocks are listed in the order of their
labels. -/
theorem listing_ranks (hf : f.lines = framed slots code) {made : Nat}
    (labelled : Labelled 1 code made) :
    f.listing.map (fun b => b.label.rank) = 0 :: List.range (made + 1) := by
  have listing : f.listing = (blocks f.lines).mergeSort BasicBlock.notAfter := rfl
  have sorted : (f.listing.map fun b => b.label.rank).Pairwise (· ≤ ·) := by
    rw [listing, List.pairwise_map]
    apply (List.pairwise_mergeSort BasicBlock.notAfter_trans BasicBlock.notAfter_total _).imp
    intro a b h
    simpa [BasicBlock.notAfter] using h
  have perm : (f.listing.map fun b => b.label.rank).Perm (0 :: List.range (made + 1)) := by
    have same : (blocks f.lines).map (fun b => b.label.rank) = (labels f.lines).map Label.rank := by
      rw [← map_label_blocks, List.map_map]
      rfl
    rw [listing]
    apply ((List.mergeSort_perm _ _).map _).trans
    rw [same, hf]
    exact labels_rank slots labelled
  apply List.Perm.eq_of_pairwise _ sorted _ perm
  · intro a b _ _ h h'
    exact Nat.le_antisymm h h'
  · rw [List.pairwise_cons]
    exact ⟨fun _ _ => Nat.zero_le _, List.pairwise_le_range⟩

theorem listing_labels (hf : f.lines = framed slots code) {made : Nat}
    (labelled : Labelled 1 code made) : (f.listing.map BasicBlock.label).Nodup := by
  have perm : (f.listing.map BasicBlock.label).Perm (labels f.lines) := by
    rw [← map_label_blocks]
    exact (List.mergeSort_perm _ _).map _
  rw [perm.nodup_iff, hf]
  exact labels_nodup slots labelled

end

/-- Storage that a line reserves. -/
def Line.isAlloca : Line → Bool
  | .reserve _ => true
  | .set _ i => i.isAlloca
  | _ => false

theorem Flows.noAlloca {known : Slot → Prop} {lo hi lo' hi' : Nat} {lines : List Line}
    (flows : Flows known lo hi lines lo' hi') : ∀ x ∈ lines, x.isAlloca = false := by
  induction flows with
  | nil => simp
  | set plain _ _ ih => simpa [Line.isAlloca, plain] using ih
  | act _ _ ih => simpa [Line.isAlloca] using ih
  | trap _ ih => simpa [trapLines, Line.isAlloca] using ih
  | guard _ _ ih => simpa [guardLines, Line.isAlloca] using ih
  | jump _ _ ih => simpa [Line.isAlloca] using ih

/-- Only the entry reserves storage. -/
theorem noAlloca_framed {known : Slot → Prop} {lo hi lo' hi' : Nat} {slots : List Slot}
    {code : List Line} (flows : Flows known lo hi code lo' hi') {b : BasicBlock}
    (hb : b ∈ blocks (framed slots code)) (notEntry : b.label ≠ entry) :
    ∀ x ∈ b.lines, x.isAlloca = false := by
  rw [blocks_framed, List.mem_cons, List.mem_cons] at hb
  obtain rfl | rfl | hb := hb
  · exact absurd rfl notEntry
  · simp [Line.isAlloca]
  · obtain ⟨before, rest, split, _, _⟩ := blocks_split hb
    intro x hx
    have inside : x ∈ Line.label start :: (code ++ [Line.jump (.goto done)]) := by
      rw [split]
      simp [hx]
    simp only [List.mem_cons, List.mem_append, List.not_mem_nil, or_false] at inside
    obtain rfl | inside | rfl := inside
    · rfl
    · exact flows.noAlloca x inside
    · rfl

/-- The slots of a program: one for each name of each of its blocks. -/
def slotsOf (program : Block) : List Slot :=
  slotsFrom 0 ((Block.all program).flatMap Block.declarations)

/-- A program that is lowered: the code of its statements, in the frame of its slots. -/
structure Lowered (program : Block) (inside : Emitted Unit) (e : Emitted Label) : Prop where
  statements : (Code.statements [tableFrom 0 program] program).run
    ⟨1, (Block.declarations program).length, 0⟩ = .ok inside
  body : (Code.body program).run {} = .ok e
  next : e.next = inside.next
  slots : slotsFrom 0 (Block.declarations program) ++ inside.slots = slotsOf program
  lines : (assemble e).lines =
    framed (slotsOf program) (clearLines (tableFrom 0 program) ++ inside.lines)

/-- Every whole program is lowered. -/
theorem lower_emits_framed {program : Block} (whole : Block.isWhole program) :
    ∃ inside e, Lowered program inside e := by
  obtain ⟨inside, h, emitted⟩ := lower_emits whole
  have all : slotsFrom 0 (Block.declarations program) ++ inside.slots = slotsOf program := by
    rw [(statements_slots h).1, slotsOf, Block.all, List.flatMap_cons, slotsFrom_append,
      Nat.zero_add]
    rfl
  refine ⟨inside, _, h, emitted, rfl, all, ?_⟩
  rw [← all]
  simp [assemble, framed, bodyLines, entry]

namespace Lowered

variable {program : Block} {inside : Emitted Unit} {e : Emitted Label}

theorem lower (h : Lowered program inside e) : Code.lower program = .ok (assemble e) := by
  rw [Code.lower, h.body]
  rfl

theorem own (h : Lowered program inside e) :
    ∀ slot ∈ slotsFrom 0 (Block.declarations program), slot ∈ slotsOf program := by
  intro slot there
  rw [← h.slots]
  exact List.mem_append_left _ there

theorem inner (h : Lowered program inside e) : ∀ slot ∈ inside.slots, slot ∈ slotsOf program := by
  intro slot there
  rw [← h.slots]
  exact List.mem_append_right _ there

theorem within (h : Lowered program inside e) :
    Scope.Within [tableFrom 0 program] (· ∈ slotsOf program) :=
  within_tableFrom (fun _ _ none => absurd none (by simp [Scope.candidates])) h.own

theorem fragment (h : Lowered program inside e) :
    Fragment (· ∈ slotsOf program) ⟨1, 0, 0⟩ (clearLines (tableFrom 0 program) ++ inside.lines)
      inside.next :=
  fragment_opened h.own (statements_fragment h.within h.statements h.inner)

end Lowered

end LetWhile.Code
