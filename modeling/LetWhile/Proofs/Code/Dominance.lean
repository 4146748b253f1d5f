import LetWhile.Proofs.Code.Fragment
import Mathlib.Data.List.Induction

/-!
Blocks and the ways through them. A place in a function is given by the lines before it. An operand
is defined at a place if the block of the place has defined it so far, or if a block above that
dominates the block has.

* `mem_blocks_iff`       a block is a label with the lines up to the next label
* `Function.Dominates`   every walk from the entry to a block passes the other
* `Flows.reads`          emitted lines read only what is defined where they stand
-/
namespace LetWhile.Code

def entry : Label := .plain "entry"

def Line.isJump : Line → Bool
  | .jump _ => true
  | _ => false

/-- What a line gives a value to. -/
def Line.defines? : Line → Option Operand
  | .set r _ => some (.reg r)
  | .reserve c => some (.cell c)
  | _ => none

/-- Operands that a line gives a value to. All others are constants. -/
def Operand.isResult : Operand → Bool
  | .reg _ | .cell _ => true
  | _ => false

/-- The lines at which a block may end: none, or those from a label on. -/
def StartsBlock (rest : List Line) : Prop := ∀ x ∈ rest.head?, x.isLabel = true

theorem takeWhile_append_startsBlock {lines rest : List Line}
    (plain : ∀ x ∈ lines, x.isLabel = false) (starts : StartsBlock rest) :
    (lines ++ rest).takeWhile (fun x => !x.isLabel) = lines := by
  induction lines with
  | nil =>
    cases rest with
    | nil => rfl
    | cons x rest => simp [starts x rfl]
  | cons x lines ih =>
    have here := plain x List.mem_cons_self
    simp [here, ih fun y hy => plain y (List.mem_cons_of_mem _ hy)]

theorem blocks_split {lines : List Line} {b : BasicBlock} (h : b ∈ blocks lines) :
    ∃ before rest, lines = before ++ Line.label b.label :: (b.lines ++ rest) ∧
      (∀ x ∈ b.lines, x.isLabel = false) ∧ StartsBlock rest := by
  induction lines with
  | nil => simp [blocks] at h
  | cons line lines ih =>
    have later (h : b ∈ blocks lines) : ∃ before rest,
        line :: lines = before ++ Line.label b.label :: (b.lines ++ rest) ∧
          (∀ x ∈ b.lines, x.isLabel = false) ∧ StartsBlock rest := by
      obtain ⟨before, rest, rfl, facts⟩ := ih h
      exact ⟨line :: before, rest, rfl, facts⟩
    cases line with
    | label l =>
      rw [blocks, List.mem_cons] at h
      obtain rfl | h := h
      · refine ⟨[], lines.dropWhile fun x => !x.isLabel, ?_, ?_, ?_⟩
        · simp [List.takeWhile_append_dropWhile]
        · intro x hx
          simpa using List.all_eq_true.1 (List.all_takeWhile (l := lines)) x hx
        · intro x hx
          have first := List.head?_dropWhile_not (fun x => !x.isLabel) lines
          rw [Option.mem_def.1 hx] at first
          simpa using first
      · exact later h
    | reserve c => exact later h
    | set r i => exact later h
    | act e => exact later h
    | jump j => exact later h

theorem mem_blocks (before : List Line) {since rest : List Line} {l : Label}
    (plain : ∀ x ∈ since, x.isLabel = false) (starts : StartsBlock rest) :
    ⟨l, since⟩ ∈ blocks (before ++ Line.label l :: (since ++ rest)) := by
  induction before with
  | nil =>
    rw [List.nil_append, blocks, takeWhile_append_startsBlock plain starts]
    exact List.mem_cons_self
  | cons line before ih =>
    cases line with
    | label l' => exact List.mem_cons_of_mem _ ih
    | reserve c => exact ih
    | set r i => exact ih
    | act e => exact ih
    | jump j => exact ih

theorem map_label_blocks (lines : List Line) :
    (blocks lines).map BasicBlock.label = labels lines := by
  induction lines with
  | nil => rfl
  | cons line rest ih =>
    cases line with
    | label l => simp [blocks, ih]
    | reserve c => exact ih
    | set r i => exact ih
    | act e => exact ih
    | jump j => exact ih

theorem labels_eq_nil {lines : List Line} (plain : ∀ x ∈ lines, x.isLabel = false) :
    labels lines = [] := by
  rw [labels, List.filterMap_eq_nil_iff]
  intro x hx
  have := plain x hx
  cases x <;> simp_all [Line.isLabel, Line.label?]

theorem mem_listing {f : Function} {b : BasicBlock} : b ∈ f.listing ↔ b ∈ blocks f.lines :=
  (List.mergeSort_perm _ _).mem_iff

namespace Function

variable {f : Function} {a l d : Label}

/-- A block has a jump to the other. -/
def Edge (f : Function) (a l : Label) : Prop :=
  ∃ b ∈ f.listing, b.label = a ∧ ∃ j, .jump j ∈ b.lines ∧ l ∈ j.targets

/-- A walk from the entry: the blocks on it, the latest first. -/
inductive Walk (f : Function) : List Label → Label → Prop where
  | start : Walk f [entry] entry
  | step {path a l} (walk : Walk f path a) (edge : f.Edge a l) : Walk f (l :: path) l

def Reachable (f : Function) (l : Label) : Prop := ∃ path, f.Walk path l

/-- Every walk to `l` passes `d`. -/
def Dominates (f : Function) (d l : Label) : Prop := ∀ path, f.Walk path l → d ∈ path

theorem Walk.entry_mem {path : List Label} (h : f.Walk path l) : entry ∈ path := by
  induction h with
  | start => exact List.mem_cons_self
  | step _ _ ih => exact List.mem_cons_of_mem _ ih

theorem entry_dominates (f : Function) (l : Label) : f.Dominates entry l :=
  fun _ walk => walk.entry_mem

theorem Walk.last_mem {path : List Label} (h : f.Walk path l) : l ∈ path := by
  cases h with
  | start => exact List.mem_cons_self
  | step _ _ => exact List.mem_cons_self

/-- A block with one predecessor is reached only from there. -/
theorem dominates_of_only_edge (only : ∀ a', f.Edge a' l → a' = a) (notEntry : l ≠ entry)
    (h : f.Dominates d a) : f.Dominates d l := by
  intro path walk
  cases walk with
  | start => exact absurd rfl notEntry
  | step walk edge =>
    obtain rfl := only _ edge
    exact List.mem_cons_of_mem _ (h _ walk)

theorem reachable_of_only_edge (only : ∀ a', f.Edge a' l → a' = a) (notEntry : l ≠ entry)
    (h : f.Reachable l) : f.Reachable a := by
  obtain ⟨path, walk⟩ := h
  cases walk with
  | start => exact absurd rfl notEntry
  | step walk edge =>
    obtain rfl := only _ edge
    exact ⟨_, walk⟩

theorem unreachable_of_no_edge (none : ∀ a, ¬f.Edge a l) (notEntry : l ≠ entry) :
    ¬f.Reachable l := by
  rintro ⟨path, walk⟩
  cases walk with
  | start => exact notEntry rfl
  | step _ edge => exact none _ edge

/-- An edge is a jump whose block is that of the last label before it. -/
theorem Edge.place (h : f.Edge a l) : ∃ before j rest,
    f.lines = before ++ Line.jump j :: rest ∧ l ∈ j.targets ∧
      (labels before).getLast? = some a := by
  obtain ⟨b, hb, rfl, j, hj, target⟩ := h
  obtain ⟨before, rest, split, plain, _⟩ := blocks_split (mem_listing.1 hb)
  obtain ⟨first, last, cut⟩ := List.append_of_mem hj
  refine ⟨before ++ Line.label b.label :: first, j, last ++ rest, ?_, target, ?_⟩
  · rw [split, cut]
    simp
  · have noLabels : labels first = [] := labels_eq_nil fun x hx => plain x (by simp [cut, hx])
    simp [noLabels]

end Function

theorem mem_targets {lines : List Line} {l : Label} :
    l ∈ targets lines ↔ ∃ x ∈ lines, l ∈ x.targets := List.mem_flatMap

theorem count_targets_pos {lines : List Line} {x : Line} {l : Label} (hx : x ∈ lines)
    (target : l ∈ x.targets) : 1 ≤ (targets lines).count l :=
  List.one_le_count_iff.2 (mem_targets.2 ⟨x, hx, target⟩)

theorem two_le_count_targets (before rest : List Line) {mid : List Line} {x x' : Line} {l : Label}
    (hx : x ∈ mid) (target : l ∈ x.targets) (target' : l ∈ x'.targets) :
    2 ≤ (targets (before ++ mid ++ x' :: rest)).count l := by
  have first := count_targets_pos hx target
  have second : 1 ≤ (targets (x' :: rest)).count l :=
    count_targets_pos List.mem_cons_self target'
  rw [targets_append, targets_append, List.count_append, List.count_append]
  omega

/-- A label with one jump to it has one place where that jump stands. -/
theorem place_unique {before before' rest rest' : List Line} {x x' : Line} {l : Label}
    (same : before ++ x :: rest = before' ++ x' :: rest') (hx : l ∈ x.targets)
    (hx' : l ∈ x'.targets) (once : (targets (before ++ x :: rest)).count l ≤ 1) :
    before = before' := by
  obtain ⟨mid, rfl, cut⟩ | ⟨mid, rfl, cut⟩ := List.append_eq_append_iff.1 same
  · cases mid with
    | nil => simp
    | cons y mid =>
      obtain ⟨rfl, rfl⟩ := List.cons.inj cut
      have := two_le_count_targets before rest' (List.mem_cons_self (l := mid)) hx hx'
      rw [same] at once
      omega
  · cases mid with
    | nil => simp
    | cons y mid =>
      obtain ⟨rfl, rfl⟩ := List.cons.inj cut
      have := two_le_count_targets before' rest (List.mem_cons_self (l := mid)) hx' hx
      omega

/-- The last label before a place that is behind one more line. -/
theorem snoc_split {place before since : List Line} {x : Line} {l : Label}
    (h : place ++ [x] = before ++ Line.label l :: since) :
    (since = [] ∧ place = before ∧ x = .label l) ∨
      ∃ since', since = since' ++ [x] ∧ place = before ++ Line.label l :: since' := by
  obtain rfl | ⟨since, y, rfl⟩ := List.eq_nil_or_concat since
  · obtain ⟨same, last⟩ := List.append_inj' h rfl
    exact .inl ⟨rfl, same, (List.cons.inj last).1⟩
  · rw [List.concat_eq_append, ← List.cons_append, ← List.append_assoc] at h
    obtain ⟨same, last⟩ := List.append_inj' h rfl
    obtain rfl := (List.cons.inj last).1
    exact .inr ⟨since, by simp, same⟩

/-- A place behind a label is in the block of the last one. -/
theorem exists_last_label {place : List Line} (inside : labels place ≠ []) :
    ∃ before l since, place = before ++ Line.label l :: since ∧ ∀ x ∈ since, x.isLabel = false := by
  induction place using List.reverseRecOn with
  | nil => exact absurd rfl inside
  | append_singleton place x ih =>
    cases hx : x.isLabel with
    | true =>
      cases x with
      | label l => exact ⟨place, l, [], rfl, by simp⟩
      | _ => simp [Line.isLabel] at hx
    | false =>
      have noLabel : labels [x] = [] := labels_eq_nil (by simpa using hx)
      rw [labels_append, noLabel, List.append_nil] at inside
      obtain ⟨before, l, since, rfl, plain⟩ := ih inside
      refine ⟨before, l, since ++ [x], by simp, ?_⟩
      simp only [List.mem_append, List.mem_singleton]
      rintro y (hy | rfl)
      · exact plain y hy
      · exact hx

/-- An operand has a value wherever the program gets to the place behind these lines: its block has
given it one since its label, or a block further up that dominates it has. -/
def Defined (f : Function) (place : List Line) (o : Operand) : Prop :=
  ∀ before l since, place = before ++ Line.label l :: since → (∀ x ∈ since, x.isLabel = false) →
    (∃ x ∈ since, x.defines? = some o) ∨
    (f.Reachable l → ∃ b ∈ f.listing, b.label ∈ labels before ∧ f.Dominates b.label l ∧
      ∃ x ∈ b.lines, x.defines? = some o)

section

variable {f : Function} {place rest : List Line} {o : Operand}

theorem Defined.snoc (h : Defined f place o) {x : Line} (plain : x.isLabel = false) :
    Defined f (place ++ [x]) o := by
  intro before l since split noLabels
  obtain ⟨rfl, rfl, rfl⟩ | ⟨since, rfl, rfl⟩ := snoc_split split
  · simp [Line.isLabel] at plain
  · obtain ⟨y, hy, defines⟩ | above := h before l since rfl fun y hy => noLabels y (by simp [hy])
    · exact .inl ⟨y, by simp [hy], defines⟩
    · exact .inr above

theorem defined_here {x : Line} (defines : x.defines? = some o) : Defined f (place ++ [x]) o := by
  intro before l since split noLabels
  obtain ⟨rfl, rfl, rfl⟩ | ⟨since, rfl, rfl⟩ := snoc_split split
  · simp [Line.defines?] at defines
  · exact .inl ⟨x, by simp, defines⟩

/-- At the start of a block, only what is above it counts. -/
theorem defined_label {l : Label}
    (h : f.Reachable l → ∃ b ∈ f.listing, b.label ∈ labels place ∧ f.Dominates b.label l ∧
      ∃ x ∈ b.lines, x.defines? = some o) : Defined f (place ++ [Line.label l]) o := by
  intro before l' since split noLabels
  obtain ⟨rfl, rfl, same⟩ | ⟨since, rfl, rfl⟩ := snoc_split split
  · obtain rfl := Line.label.inj same
    exact .inr h
  · have := noLabels (.label l) (by simp)
    simp [Line.isLabel] at this

/-- Nothing leads into dead code, so everything counts as defined there. -/
theorem defined_dead {l : Label} (noJump : l ∉ targets f.lines) (notEntry : l ≠ entry) :
    Defined f (place ++ [Line.label l]) o := by
  apply defined_label
  intro reachable
  refine absurd reachable (Function.unreachable_of_no_edge ?_ notEntry)
  intro a edge
  obtain ⟨before, j, rest, split, target, _⟩ := edge.place
  exact noJump (mem_targets.2 ⟨.jump j, by simp [split], target⟩)

/-- What is defined at the only jump to a block is defined in the block. -/
theorem Defined.past_guard (h : Defined f place o) (j : Jump) (mid : List Line) (l : Label)
    (inside : labels place ≠ [])
    (split : f.lines = place ++ Line.jump j :: (mid ++ Line.label l :: rest))
    (starts : StartsBlock (mid ++ Line.label l :: rest)) (target : l ∈ j.targets)
    (once : (targets f.lines).count l ≤ 1) (notEntry : l ≠ entry) :
    Defined f (place ++ Line.jump j :: mid ++ [Line.label l]) o := by
  obtain ⟨before, a, since, rfl, plain⟩ := exists_last_label inside
  have noLabels := labels_eq_nil plain
  have only : ∀ a', f.Edge a' l → a' = a := by
    intro a' edge
    obtain ⟨before', j', rest', split', target', last⟩ := edge.place
    have same := place_unique (split.symm.trans split') target target' (split ▸ once)
    rw [← same] at last
    simpa [noLabels] using last.symm
  apply defined_label
  intro reachable
  obtain ⟨x, hx, defines⟩ | above := h before a since rfl plain
  · refine ⟨⟨a, since ++ [Line.jump j]⟩, ?_, by simp, ?_, x, by simp [hx], defines⟩
    · rw [mem_listing, split]
      have plainJump : ∀ x ∈ since ++ [Line.jump j], x.isLabel = false := by
        simp only [List.mem_append, List.mem_singleton]
        rintro y (hy | rfl)
        · exact plain y hy
        · rfl
      simpa using mem_blocks before (l := a) plainJump starts
    · exact Function.dominates_of_only_edge only notEntry fun path walk => walk.last_mem
  · obtain ⟨b, hb, earlier, dominates, defines⟩ :=
      above (Function.reachable_of_only_edge only notEntry reachable)
    exact ⟨b, hb, by simp [earlier], Function.dominates_of_only_edge only notEntry dominates,
      defines⟩

end

/-- All results that the lines read are defined where they stand. -/
def Reads (f : Function) : List Line → List Line → Prop
  | _, [] => True
  | place, x :: rest =>
    (∀ o ∈ x.operands, o.isResult → Defined f place o) ∧ Reads f (place ++ [x]) rest

theorem reads_append {f : Function} {place a b : List Line} :
    Reads f place (a ++ b) ↔ Reads f place a ∧ Reads f (place ++ a) b := by
  induction a generalizing place with
  | nil => simp [Reads]
  | cons x a ih => simp [Reads, ih, and_assoc]

theorem reads_of_no_operands {f : Function} {place lines : List Line}
    (h : ∀ x ∈ lines, x.operands = []) : Reads f place lines := by
  induction lines generalizing place with
  | nil => trivial
  | cons x rest ih =>
    refine ⟨?_, ih fun y hy => h y (List.mem_cons_of_mem _ hy)⟩
    simp [h x List.mem_cons_self]

section

variable {f : Function} {known : Slot → Prop}

theorem Ready.defined {lo hi : Nat} {place : List Line} {o : Operand} (h : Ready known lo hi o)
    (result : o.isResult) (cells : ∀ c, known c.slot → Defined f place (.cell c))
    (regs : ∀ r, lo ≤ r → r < hi → Defined f place (.reg r)) : Defined f place o := by
  cases o with
  | cell c => exact cells c h
  | reg r => exact regs r h.1 h.2
  | _ => simp [Operand.isResult] at result

theorem defined_past_trapLines {place : List Line} {message : String} {made : Nat}
    (arrivals : ∀ stem n, (targets f.lines).count (.numbered stem n) ≤
      (Label.numbered stem n).arrivals) (o : Operand) :
    Defined f (place ++ trapLines message made) o := by
  have noJump : Label.numbered "dead" (made + 1) ∉ targets f.lines := by
    have := arrivals "dead" (made + 1)
    rw [← List.count_eq_zero]
    simpa [Label.arrivals] using this
  have behind : Defined f
      (place ++ [Line.act (.trap (.text message)), .jump .unreachable] ++
        [Line.label (.numbered "dead" (made + 1))]) o := defined_dead noJump (by simp [entry])
  simpa [trapLines] using behind

theorem Defined.past_guardLines {place rest : List Line} {failed : Operand} {message : String}
    {made : Nat} {o : Operand} (h : Defined f place o) (inside : labels place ≠ [])
    (arrivals : ∀ stem n, (targets f.lines).count (.numbered stem n) ≤
      (Label.numbered stem n).arrivals)
    (split : f.lines = place ++ (guardLines failed message made ++ rest)) :
    Defined f (place ++ guardLines failed message made) o := by
  have once : (targets f.lines).count (.numbered "ok" (made + 2)) ≤ 1 := by
    simpa [Label.arrivals] using arrivals "ok" (made + 2)
  have past := h.past_guard
    (.branch failed (.numbered "trap" (made + 1)) (.numbered "ok" (made + 2)))
    [.label (.numbered "trap" (made + 1)), .act (.trap (.text message)), .jump .unreachable]
    (.numbered "ok" (made + 2)) inside (by simpa [guardLines] using split)
    (by simp [StartsBlock, Line.isLabel]) (by simp [Jump.targets]) once (by simp [entry])
  simpa [guardLines] using past

/-- **Emitted lines read only what is defined where they stand**, and whatever is in reach where
they end is defined there. -/
theorem Flows.reads {lo hi lo' hi' : Nat} {lines : List Line}
    (flows : Flows known lo hi lines lo' hi')
    (arrivals : ∀ stem n, (targets f.lines).count (.numbered stem n) ≤
      (Label.numbered stem n).arrivals)
    (cells : ∀ place rest, f.lines = place ++ rest → start ∈ labels place →
      ∀ c, known c.slot → Defined f place (.cell c))
    (place rest : List Line) (split : f.lines = place ++ (lines ++ rest))
    (started : start ∈ labels place)
    (regs : ∀ r, lo ≤ r → r < hi → Defined f place (.reg r)) :
    Reads f place lines ∧
      ∀ r, lo' ≤ r → r < hi' → Defined f (place ++ lines) (.reg r) := by
  induction flows generalizing place with
  | nil => exact ⟨trivial, by simpa using regs⟩
  | @set lo hi i lines lo' hi' plain ready flows ih =>
    have regs' : ∀ r, lo ≤ r → r < hi + 1 → Defined f (place ++ [Line.set hi i]) (.reg r) := by
      intro r low high
      by_cases here : r = hi
      · exact here ▸ defined_here rfl
      · exact (regs r low (by omega)).snoc rfl
    obtain ⟨reads, reach⟩ := ih (place ++ [Line.set hi i]) (by simpa using split)
      (by simp [started]) regs'
    refine ⟨⟨?_, reads⟩, by simpa using reach⟩
    intro o ho result
    exact (ready o ho).defined result (cells place _ split started) regs
  | @act lo hi e lines lo' hi' ready flows ih =>
    obtain ⟨reads, reach⟩ := ih (place ++ [Line.act e]) (by simpa using split) (by simp [started])
      fun r low high => (regs r low high).snoc rfl
    refine ⟨⟨?_, reads⟩, by simpa using reach⟩
    intro o ho result
    exact (ready o ho).defined result (cells place _ split started) regs
  | @trap lo hi message made lines lo' hi' flows ih =>
    obtain ⟨reads, reach⟩ := ih (place ++ trapLines message made) (by simpa using split)
      (by simp [started]) fun r _ _ => defined_past_trapLines arrivals (.reg r)
    refine ⟨reads_append.2 ⟨?_, reads⟩, by simpa using reach⟩
    simp [trapLines, Reads, Line.operands, Effect.operands, Jump.operands, Operand.isResult]
  | @guard lo hi failed message made lines lo' hi' ready flows ih =>
    obtain ⟨reads, reach⟩ := ih (place ++ guardLines failed message made) (by simpa using split)
      (by simp [started]) fun r low high => (regs r low high).past_guardLines
        (List.ne_nil_of_mem started) arrivals (by simpa using split)
    refine ⟨reads_append.2 ⟨⟨?_, ?_⟩, reads⟩, by simpa using reach⟩
    · intro o ho result
      obtain rfl := List.mem_singleton.1 ho
      exact ready.defined result (cells place _ split started) regs
    · simp [Reads, Line.operands, Effect.operands, Jump.operands, Operand.isResult]
  | @jump lo hi j l lines lo' hi' ready flows ih =>
    obtain ⟨reads, reach⟩ := ih (place ++ [Line.jump j, .label l]) (by simpa using split)
      (by simp [started]) fun r low high => by omega
    refine ⟨⟨?_, ?_, by simpa using reads⟩, by simpa using reach⟩
    · intro o ho result
      exact (ready o ho).defined result (cells place _ split started) regs
    · simp [Line.operands]

end

end LetWhile.Code
