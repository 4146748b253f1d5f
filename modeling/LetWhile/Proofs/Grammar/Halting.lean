import LetWhile.Proofs.Grammar.Calls

/-!
# Parsing ends

Every call of a function of the parser is made with fewer tokens to come, or with as many at a lower
level of the grammar, so calls cannot go on without end. What is shown for each function is
`Script.Meets`: if its calls give what the parser gives, it makes only such calls and gives what the
parser gives.
-/

namespace LetWhile

/-- What a reply says, without its bound. -/
def Reader.Reply.Ends {α : Type} {n : Nat} (y : Reply α n) (x : Except SyntaxError α)
    (rest : Reader) : Prop :=
  match y with
  | .done a r _ => x = .ok a ∧ rest = r
  | .failed e r _ => x = .error e ∧ rest = r

/-- What the parser gives for a call. -/
def Routine.Gives : (c : Routine) → Reader → Except SyntaxError c.Value → Reader → Prop
  | .unary, r => (Reader.unary r).Ends
  | .binary left least, r => (Reader.binary left least r).Ends
  | .tighter right power, r => (Reader.tighter right power r).Ends
  | .expr, r => (Reader.expr r).Ends
  | .statement, r => (Reader.statement r).Ends
  | .block, r => (Reader.block r).Ends
  | .statements, r => (Reader.statements r).Ends
  | .skip, r => fun x rest => x = .ok () ∧ rest = r.skip
  | .run, r => fun x _ => x = .ok r.run

namespace Reader.Reply.Ends

variable {α β : Type} {n m : Nat} {y : Reply α n} {rest : Reader}

theorem weaken_iff {x : Except SyntaxError α} (le : n ≤ m) :
    (y.weaken le).Ends x rest ↔ y.Ends x rest := by
  cases y <;> rfl

/-- A chain that gives a value came to its second link. -/
theorem of_andThen {b : β}
    {next : α → (rest : Reader) → rest.size < n → Reply β (rest.size + 1)} {le : n ≤ m}
    (h : (y.andThen next le).Ends (.ok b) rest) :
    ∃ a r, ∃ lt : r.size < n, (next a r lt).Ends (.ok b) rest := by
  cases y with
  | failed e r _ => cases h.1
  | done a r lt => exact ⟨a, r, lt, (weaken_iff (by omega)).1 h⟩

end Reader.Reply.Ends

/-- Folding stops where nothing binds tighter. -/
theorem Reader.operator?_of_binary {left e : Expr} {least : Nat} {r rest : Reader}
    (h : (binary left least r).Ends (.ok e) rest) : rest.operator? least = none := by
  rw [binary] at h
  split at h
  · rename_i op tight
    have lt := size_advance_lt (isOrdinary_of_operator? tight)
    obtain ⟨right, r₁, lt₁, h⟩ := h.of_andThen
    obtain ⟨right', r₂, lt₂, h⟩ := h.of_andThen
    exact operator?_of_binary ((Reply.Ends.weaken_iff (r₂.foldBound_le least)).1 h)
  · rename_i loose
    obtain ⟨-, rfl⟩ := h
    rw [operator?_looked, loose]
termination_by r.size

namespace Script

variable {α β : Type} {allowed : Routine → Reader → Prop}

/-- Each call that the script makes is allowed, and the script ends as wanted, where calls give what
the parser gives. -/
def Meets (allowed : Routine → Reader → Prop) :
    Script α → Reader → (Except SyntaxError α → Reader → Prop) → Prop
  | .done a, r, post => post (.ok a) r
  | .fail e, r, post => post (.error e) r
  | .peek k, r, post => (k r.head).Meets allowed r.looked post
  | .take k, r, post => (k r.head).Meets allowed r.advance post
  | .last k, r, post => (k r.last).Meets allowed r post
  | .note e k, r, post => k.Meets allowed (r.note e) post
  | .errors k, r, post => (k r.errors).Meets allowed r post
  | .call c k, r, post => allowed c r ∧ ∀ x rest, c.Gives r x rest → (k x).Meets allowed rest post

theorem Meets.mono {p : Script α} {r : Reader} {post post' : Except SyntaxError α → Reader → Prop}
    (h : p.Meets allowed r post) (le : ∀ x rest, post x rest → post' x rest) :
    p.Meets allowed r post' := by
  induction p generalizing r with
  | done a | fail e => exact le _ _ h
  | peek k ih | take k ih | last k ih | errors k ih => exact ih _ h
  | note e k ih => exact ih h
  | call c k ih => exact ⟨h.1, fun x rest gives => ih x (h.2 x rest gives)⟩

theorem meets_bind {p : Script α} {f : α → Script β} {r : Reader}
    {post : Except SyntaxError β → Reader → Prop}
    (h : p.Meets allowed r fun x rest =>
      match x with
      | .ok a => (f a).Meets allowed rest post
      | .error e => post (.error e) rest) : (p >>= f).Meets allowed r post := by
  induction p generalizing r with
  | done a | fail e => exact h
  | peek k ih | take k ih | last k ih | errors k ih => exact ih _ h
  | note e k ih => exact ih h
  | call c k ih => exact ⟨h.1, fun x rest gives => ih x (h.2 x rest gives)⟩

theorem meets_invoke {c : Routine} {r : Reader} (may : allowed c r) :
    (invoke c).Meets allowed r (c.Gives r) := by
  refine ⟨may, fun x rest gives => ?_⟩
  cases x with
  | ok a => exact gives
  | error e => exact gives

/-- A script follows a chain of replies link by link. -/
theorem meets_andThen {p : Script α} {f : α → Script β} {r : Reader} {n m : Nat}
    {y : Reader.Reply α n}
    {next : α → (rest : Reader) → rest.size < n → Reader.Reply β (rest.size + 1)} {le : n ≤ m}
    (first : p.Meets allowed r y.Ends)
    (then_ : ∀ a rest lt, (f a).Meets allowed rest (next a rest lt).Ends) :
    (p >>= f).Meets allowed r (y.andThen next le).Ends := by
  refine meets_bind (first.mono fun x rest ends => ?_)
  cases y with
  | failed e r' h =>
    obtain ⟨rfl, rfl⟩ := ends
    exact ⟨rfl, rfl⟩
  | done a r' h =>
    obtain ⟨rfl, rfl⟩ := ends
    exact (then_ a rest h).mono fun _ _ => (Reader.Reply.Ends.weaken_iff (by omega)).2

theorem meets_peek {k : Token → Script α} {r : Reader}
    {post : Except SyntaxError α → Reader → Prop} :
    (peek k).Meets allowed r.looked post ↔ (peek k).Meets allowed r post := by
  simp only [Meets, Reader.head_looked, Reader.looked_looked]

/-! ## What each function does -/

theorem meets_weaken {p : Script α} {r : Reader} {n m : Nat} {y : Reader.Reply α n} (le : n ≤ m)
    (h : p.Meets allowed r y.Ends) : p.Meets allowed r (y.weaken le).Ends := by
  refine h.mono fun x rest ends => ?_
  cases y with
  | done | failed => exact ends

theorem meets_expect (wanted : Wanted) (r : Reader) :
    (expect wanted).Meets allowed r (Reader.expect wanted r).Ends := by
  unfold Reader.expect expect
  simp only [Reader.next_eq, Meets]
  split
  · exact ⟨rfl, rfl⟩
  · exact ⟨rfl, rfl⟩

theorem meets_literal (r : Reader) : literal.Meets allowed r (Reader.literal r).Ends := by
  unfold Reader.literal
  split
  · rename_i kind
    split <;> rename_i read
    · simp only [literal, Meets, kind, read, Reader.advance_looked]
      exact ⟨rfl, rfl⟩
    · simp only [literal, Meets, kind, read, Reader.advance_looked]
      exact ⟨rfl, rfl⟩
  · rename_i kind
    simp only [literal, Meets, kind, Reader.advance_looked]
    exact ⟨rfl, rfl⟩
  · rename_i kind
    simp only [literal, Meets, kind, Reader.advance_looked]
    exact ⟨rfl, rfl⟩
  · simp only [literal, Meets]
    exact ⟨rfl, rfl⟩

theorem meets_terminated {r : Reader} (h : allowed .expr r) :
    terminated.Meets allowed r (Reader.terminated r).Ends := by
  unfold Reader.terminated
  refine meets_andThen (meets_invoke h) fun e r lt => ?_
  refine meets_andThen (meets_expect _ _) fun _ r lt => ?_
  exact ⟨rfl, rfl⟩

theorem meets_condition {r : Reader} (h : ∀ r' : Reader, r'.size < r.size → allowed .expr r') :
    condition.Meets allowed r (Reader.condition r).Ends := by
  unfold Reader.condition
  refine meets_andThen (meets_expect _ _) fun _ r' lt => ?_
  refine meets_andThen (meets_invoke (h r' lt)) fun e r lt => ?_
  refine meets_andThen (meets_expect _ _) fun _ r lt => ?_
  exact ⟨rfl, rfl⟩

theorem meets_bare {r : Reader}
    (h : ∀ c (r' : Reader), c.level < 4 → r'.size ≤ r.size → allowed c r') :
    bare.Meets allowed r (Reader.bare r).Ends := by
  unfold Reader.bare
  split
  · rename_i name
    have lt := Reader.size_advance_lt (r := r) (by simp [Token.isOrdinary, name])
    dsimp only
    split
    · rename_i sign
      have lt' := Reader.size_advance_lt (r := r.advance) (by simp [Token.isOrdinary, sign])
      simp only [bare, Meets, name, sign, if_true, Reader.advance_looked]
      refine meets_andThen (meets_terminated (h _ _ (by decide) (by omega))) fun e r lt => ?_
      exact ⟨rfl, rfl⟩
    · rename_i noSign
      simp only [bare, Meets, name, noSign, if_true, if_false, Reader.advance_looked]
      have same := r.advance.size_looked
      refine meets_andThen (meets_invoke (h _ _ (by simp [Routine.level]) (by omega)))
        fun e r lt => ?_
      refine meets_andThen (meets_expect _ _) fun _ r lt => ?_
      exact ⟨rfl, rfl⟩
  · rename_i name
    simp only [bare, Meets, name, if_false]
    refine meets_andThen (meets_terminated (h _ _ (by decide) (by simp))) fun e r lt => ?_
    exact ⟨rfl, rfl⟩

end Script

/-- How much a call has before it. -/
def Routine.rank (c : Routine) (r : Reader) : Nat := 7 * r.size + c.level

namespace Routine

variable {c c' : Routine} {r r' : Reader}

theorem level_le (c : Routine) : c.level ≤ 6 := by
  cases c <;> simp [level]

theorem rank_lt_iff :
    c'.rank r' < c.rank r ↔ r'.size < r.size ∨ r'.size = r.size ∧ c'.level < c.level := by
  have := c.level_le
  have := c'.level_le
  unfold rank
  omega

theorem rank_lt_of_size (h : r'.size < r.size) : c'.rank r' < c.rank r :=
  rank_lt_iff.2 (.inl h)

theorem rank_lt_of_level (h : r'.size ≤ r.size) (lower : c'.level < c.level) :
    c'.rank r' < c.rank r :=
  rank_lt_iff.2 ((Nat.lt_or_eq_of_le h).imp_right fun same => ⟨same, lower⟩)

end Routine

namespace Script

open Routine (rank_lt_of_size rank_lt_of_level)

theorem meets_unary (r : Reader) :
    Routine.unary.script.Meets (fun c r' => c.rank r' < Routine.unary.rank r) r
      (Reader.unary r).Ends := by
  unfold Reader.unary
  split
  · rename_i kind
    have lt := Reader.size_advance_lt (r := r) (by simp [Token.isOrdinary, kind])
    simp only [Routine.script, Meets, kind, Reader.advance_looked]
    refine meets_andThen (meets_invoke (c := .unary) (rank_lt_of_size lt)) fun e r lt => ?_
    exact ⟨rfl, rfl⟩
  · rename_i kind
    have lt := Reader.size_advance_lt (r := r) (by simp [Token.isOrdinary, kind])
    simp only [Routine.script, Meets, kind, Reader.advance_looked]
    refine meets_andThen (meets_invoke (c := .expr) (rank_lt_of_size lt)) fun e r lt => ?_
    refine meets_andThen (meets_expect _ _) fun _ r lt => ?_
    exact ⟨rfl, rfl⟩
  · rename_i kind
    simp only [Routine.script, Meets, kind, Reader.advance_looked]
    exact ⟨rfl, rfl⟩
  · simp only [Routine.script, Meets]
    exact meets_peek.2 (meets_literal r)

theorem meets_binary (left : Expr) (least : Nat) (r : Reader) :
    (Routine.binary left least).script.Meets
      (fun c r' => c.rank r' < (Routine.binary left least).rank r) r
      (Reader.binary left least r).Ends := by
  unfold Reader.binary
  split
  · rename_i op tight
    have lt := Reader.size_advance_lt (Reader.isOrdinary_of_operator? tight)
    have tight' : operator? least r.head = some op := tight
    simp only [Routine.script, Meets, tight', Reader.advance_looked]
    refine meets_andThen (meets_invoke (c := .unary) (rank_lt_of_size lt)) fun right r lt => ?_
    refine meets_andThen (meets_invoke (c := .tighter _ _) (rank_lt_of_size (by omega)))
      fun right r lt => ?_
    refine meets_weaken _ (meets_invoke (c := .binary _ _) (rank_lt_of_size (by omega)))
  · rename_i loose
    have loose' : operator? least r.head = none := loose
    simp only [Routine.script, Meets, loose']
    exact ⟨rfl, rfl⟩

theorem meets_tighter (right : Expr) (power : Nat) (r : Reader) :
    (Routine.tighter right power).script.Meets
      (fun c r' => c.rank r' < (Routine.tighter right power).rank r) r
      (Reader.tighter right power r).Ends := by
  unfold Reader.tighter
  split
  · rename_i tight
    have tight' : (operator? power r.head).isSome := tight
    have lower : (Routine.binary right power).rank r.looked <
        (Routine.tighter right power).rank r :=
      rank_lt_of_level (Nat.le_of_eq r.size_looked) (by simp [Routine.level])
    simp only [Routine.script, Meets, tight', if_true]
    refine meets_andThen (meets_invoke (c := .binary right power) lower) fun right' r' lt => ?_
    simp only [Reader.foldBound, Reader.operator?_looked, tight, if_true, Reader.size_looked] at lt
    exact meets_invoke (c := .tighter _ _) (rank_lt_of_size lt)
  · rename_i loose
    have loose' : ¬ (operator? power r.head).isSome := loose
    simp only [Routine.script, Meets, loose']
    exact ⟨rfl, rfl⟩

theorem meets_expr (r : Reader) :
    Routine.expr.script.Meets (fun c r' => c.rank r' < Routine.expr.rank r) r
      (Reader.expr r).Ends := by
  unfold Reader.expr
  simp only [Routine.script]
  refine meets_andThen (meets_invoke (c := .unary) (rank_lt_of_level (Nat.le_refl _) (by decide)))
    fun left r lt => ?_
  refine meets_weaken _ (meets_invoke (c := .binary _ _) (rank_lt_of_size lt))

theorem meets_statement (r : Reader) :
    Routine.statement.script.Meets (fun c r' => c.rank r' < Routine.statement.rank r) r
      (Reader.statement r).Ends := by
  unfold Reader.statement
  split
  · rename_i kind
    have lt := Reader.size_advance_lt (r := r) (by simp [Token.isOrdinary, kind])
    simp only [Routine.script, Meets, kind, Reader.advance_looked]
    refine meets_andThen (meets_expect _ _) fun name r lt => ?_
    refine meets_andThen (meets_expect _ _) fun _ r lt => ?_
    refine meets_andThen (meets_terminated (rank_lt_of_size (by omega))) fun e r lt => ?_
    exact ⟨rfl, rfl⟩
  · rename_i kind
    have lt := Reader.size_advance_lt (r := r) (by simp [Token.isOrdinary, kind])
    simp only [Routine.script, Meets, kind, Reader.advance_looked]
    refine meets_andThen (meets_condition fun r' lt' => rank_lt_of_size (by omega))
      fun test r lt => ?_
    refine meets_andThen (meets_invoke (c := .block) (rank_lt_of_size (by omega)))
      fun yes r lt => ?_
    split
    · rename_i kind
      have lt := Reader.size_advance_lt (r := r) (by simp [Token.isOrdinary, kind])
      simp only [Meets, kind, if_true, Reader.advance_looked]
      refine meets_andThen (meets_invoke (c := .block) (rank_lt_of_size (by omega)))
        fun no r lt => ?_
      exact ⟨rfl, rfl⟩
    · rename_i kind
      simp only [Meets, kind, if_false]
      exact ⟨rfl, rfl⟩
  · rename_i kind
    have lt := Reader.size_advance_lt (r := r) (by simp [Token.isOrdinary, kind])
    simp only [Routine.script, Meets, kind, Reader.advance_looked]
    refine meets_andThen (meets_condition fun r' lt' => rank_lt_of_size (by omega))
      fun test r lt => ?_
    refine meets_andThen (meets_invoke (c := .block) (rank_lt_of_size (by omega)))
      fun body r lt => ?_
    exact ⟨rfl, rfl⟩
  · rename_i kind
    have lt := Reader.size_advance_lt (r := r) (by simp [Token.isOrdinary, kind])
    simp only [Routine.script, Meets, kind, Reader.advance_looked]
    refine meets_andThen (meets_condition fun r' lt' => rank_lt_of_size (by omega))
      fun e r lt => ?_
    refine meets_andThen (meets_expect _ _) fun _ r lt => ?_
    exact ⟨rfl, rfl⟩
  · rename_i kind
    have lt := Reader.size_advance_lt (r := r) (by simp [Token.isOrdinary, kind])
    simp only [Routine.script, Meets, kind, Reader.advance_looked]
    refine meets_andThen (meets_terminated (rank_lt_of_size (by omega))) fun e r lt => ?_
    exact ⟨rfl, rfl⟩
  · simp only [Routine.script, Meets]
    exact meets_peek.2 (meets_bare fun c r' lower le => rank_lt_of_level le lower)

theorem meets_block (r : Reader) :
    Routine.block.script.Meets (fun c r' => c.rank r' < Routine.block.rank r) r
      (Reader.block r).Ends := by
  unfold Reader.block
  simp only [Routine.script]
  refine meets_andThen (meets_expect _ _) fun _ r' lt => ?_
  refine (meets_invoke (c := .statements) (rank_lt_of_size lt)).mono fun x rest ends => ?_
  simp only [Routine.Gives] at ends
  generalize Reader.statements r' = y at ends ⊢
  cases y with
  | done | failed => exact ends

theorem meets_statements (r : Reader) :
    Routine.statements.script.Meets (fun c r' => c.rank r' < Routine.statements.rank r) r
      (Reader.statements r).Ends := by
  unfold Reader.statements
  split
  · rename_i closed
    simp only [Routine.script, Meets, closed, if_true, Reader.advance_looked]
    exact ⟨rfl, rfl⟩
  · rename_i more
    split
    · rename_i ordinary
      simp only [Routine.script, Meets, more, ordinary, if_true, if_false]
      refine meets_andThen (meets_invoke (c := .statement)
        (rank_lt_of_level (Nat.le_of_eq r.size_looked) (by decide))) fun s r' lt => ?_
      rw [Reader.size_looked] at lt
      refine meets_andThen (meets_invoke (c := .statements) (rank_lt_of_size lt))
        fun body r lt => ?_
      exact ⟨rfl, rfl⟩
    · rename_i finished
      simp only [Routine.script, failAt, Meets, more, finished, Bool.false_eq_true, if_false,
        Reader.head_looked, Reader.advance_looked]
      exact ⟨rfl, rfl⟩

theorem meets_skip (r : Reader) :
    Routine.skip.script.Meets (fun c r' => c.rank r' < Routine.skip.rank r) r
      fun x rest => x = .ok () ∧ rest = r.skip := by
  rw [Reader.skip]
  split
  · rename_i ordinary
    have lt := Reader.size_advance_lt ordinary
    by_cases stop : r.head.kind = .semicolon ∨ r.head.kind = .closeCurly
    · simp only [Routine.script, Meets, ordinary, stop, if_true, Reader.advance_looked, and_self]
    · simp only [Routine.script, Meets, ordinary, stop, if_true, if_false, Reader.advance_looked]
      exact meets_invoke (c := .skip) (rank_lt_of_size lt)
  · rename_i finished
    simp only [Routine.script, Meets, finished, Bool.false_eq_true, if_false, and_self]

theorem meets_run (r : Reader) :
    Routine.run.script.Meets (fun c r' => c.rank r' < Routine.run.rank r) r
      fun x _ => x = .ok r.run := by
  rw [Reader.run]
  split
  · rename_i ordinary
    have lt := Reader.size_advance_lt ordinary
    simp only [Routine.script, Meets, ordinary, if_true]
    refine ⟨rank_lt_of_level (Nat.le_of_eq r.size_looked) (by decide), fun x rest gives => ?_⟩
    simp only [Routine.Gives] at gives
    generalize Reader.statement r.looked = y at gives ⊢
    cases y with
    | done s rest' shorter =>
      obtain ⟨rfl, rfl⟩ := gives
      rw [Reader.size_looked] at shorter
      refine meets_bind ((meets_invoke (c := .run) (rank_lt_of_size shorter)).mono
        fun x rest gives => ?_)
      rw [gives]
      rfl
    | failed e rest' bounded =>
      obtain ⟨rfl, rfl⟩ := gives
      rw [Reader.size_looked] at bounded
      -- The statement may have taken nothing; giving it up takes a token all the same.
      have shorter := Reader.size_synchronize_lt e (by omega) bounded
      refine meets_bind ((meets_invoke (c := .skip)
        (rank_lt_of_level bounded (by decide))).mono fun x rest gives => ?_)
      obtain ⟨rfl, rfl⟩ := gives
      exact meets_invoke (c := .run) (rank_lt_of_size shorter)
  · rename_i finished
    simp only [Routine.script, Meets, finished, Bool.false_eq_true, if_false]

theorem meets_script (c : Routine) (r : Reader) :
    c.script.Meets (fun c' r' => c'.rank r' < c.rank r) r (c.Gives r) := by
  cases c with
  | unary => exact meets_unary r
  | binary left least => exact meets_binary left least r
  | tighter right power => exact meets_tighter right power r
  | expr => exact meets_expr r
  | statement => exact meets_statement r
  | block => exact meets_block r
  | statements => exact meets_statements r
  | skip => exact meets_skip r
  | run => exact meets_run r

end Script

/-! ## Runs -/

@[simp] theorem Asker.reader_take (s : Asker) : s.take.reader = s.reader.advance := by
  simp [take, ask, Reader.next_eq]

/-- Whether the answers are those of the parser. -/
def Routine.Answers.Sound (answers : Routine.Answers) : Prop :=
  ∀ c s x s', answers c s = some (x, s') → c.Gives s.reader x s'.reader

namespace Script

variable {α : Type} {allowed : Routine → Reader → Prop} {answers : Routine.Answers}
  {p : Script α} {post : Except SyntaxError α → Reader → Prop} {s : Asker}

theorem Meets.perform (sound : answers.Sound) (h : p.Meets allowed s.reader post)
    {x : Except SyntaxError α} {s' : Asker} (run : p.perform answers s = some (x, s')) :
    post x s'.reader := by
  induction p generalizing s with
  | done a | fail e =>
    cases run
    exact h
  | peek k ih => exact ih _ (s := s.look) h run
  | take k ih =>
    rw [Script.perform, Reader.next_eq] at run
    exact ih _ (s := s.take) (by rwa [Asker.reader_take]) run
  | last k ih | errors k ih => exact ih _ h run
  | note e k ih => exact ih (s := { s with reader := s.reader.note e }) h run
  | call c k ih =>
    rw [Script.perform] at run
    split at run
    · cases run
    · rename_i answered
      exact ih _ (h.2 _ _ (sound _ _ _ _ answered)) run

theorem Meets.calls (sound : answers.Sound) (h : p.Meets allowed s.reader post)
    {c : Routine} {s' : Asker} (made : (c, s') ∈ p.calls answers s) : allowed c s'.reader := by
  induction p generalizing s with
  | done a | fail e => cases made
  | peek k ih => exact ih _ (s := s.look) h made
  | take k ih =>
    rw [Script.calls, Reader.next_eq] at made
    exact ih _ (s := s.take) (by rwa [Asker.reader_take]) made
  | last k ih | errors k ih => exact ih _ h made
  | note e k ih => exact ih (s := { s with reader := s.reader.note e }) h made
  | call c' k ih =>
    rw [Script.calls] at made
    rcases List.mem_cons.1 made with first | later
    · cases first
      exact h.1
    · split at later
      · cases later
      · rename_i answered
        exact ih _ (h.2 _ _ (sound _ _ _ _ answered)) later

/-- A script ends if the calls do that it makes. -/
theorem perform_isSome (ends : ∀ c s', (c, s') ∈ p.calls answers s → (answers c s').isSome) :
    (p.perform answers s).isSome := by
  induction p generalizing s with
  | done a | fail e => rfl
  | peek k ih | take k ih | last k ih | errors k ih => exact ih _ ends
  | note e k ih => exact ih ends
  | call c k ih =>
    rw [Script.calls] at ends
    have answered := ends c s (List.mem_cons_self ..)
    rw [Script.perform]
    split
    · rename_i none
      rw [none] at answered
      cases answered
    · rename_i some
      rw [some] at ends
      exact ih _ fun c' s' made => ends c' s' (List.mem_cons_of_mem _ made)

end Script

namespace Routine

theorem sound_perform (depth : Nat) : Answers.Sound (perform depth) := by
  induction depth with
  | zero =>
    intro c s x s' run
    cases run
  | succ depth ih =>
    intro c s x s' run
    exact (Script.meets_script c s.reader).perform ih run

/-- Whatever a function calls, it leaves it less to do than it has itself. -/
theorem rank_lt_of_mem_calls {depth : Nat} {c c' : Routine} {s s' : Asker}
    (made : (c', s') ∈ c.calls depth s) : c'.rank s'.reader < c.rank s.reader :=
  (Script.meets_script c s.reader).calls (sound_perform depth) made

/-- Calls do not go deeper than the rank of the first one. -/
theorem perform_isSome {depth : Nat} {c : Routine} {s : Asker} (h : c.rank s.reader < depth) :
    (perform depth c s).isSome := by
  induction depth generalizing c s with
  | zero => omega
  | succ depth ih =>
    refine Script.perform_isSome fun c' s' made => ih ?_
    have := rank_lt_of_mem_calls made
    omega

end Routine

namespace Script

variable {β : Type} {answers : Routine.Answers} {c : Routine} {s : Asker}

theorem calls_invoke : (invoke c).calls answers s = [(c, s)] := by
  rw [invoke, Script.calls]
  split
  · rfl
  · rename_i x s' _
    cases x with
    | ok | error => rfl

theorem calls_invoke_bind {f : c.Value → Script β} :
    (invoke c >>= f).calls answers s = (c, s) ::
      match answers c s with
      | some (.ok a, s') => (f a).calls answers s'
      | _ => [] := by
  simp only [bind, invoke, andThen, Script.calls]
  cases answers c s with
  | none => rfl
  | some reply =>
    obtain ⟨x, s'⟩ := reply
    cases x with
    | ok | error => rfl

end Script

/-! ## How often the tokenizer is asked -/

/-- How often the tokenizer can still be asked. -/
def Reader.askable (r : Reader) : Nat :=
  match r.buffer with
  | some t => if t.isOrdinary then r.stream.length + 1 else 0
  | none => r.stream.length + 1

namespace Reader

theorem asks_add_length_dropWhile (stream : List Token) :
    asks stream + (stream.dropWhile Token.isComment).length = stream.length + 1 := by
  induction stream with
  | nil => rfl
  | cons t ts ih =>
    rw [asks, List.dropWhile_cons]
    split
    · rw [List.length_cons]
      omega
    · exact Nat.add_comm ..

theorem askable_looked_le {r : Reader} (h : r.buffer = none) :
    r.looked.askable ≤ (r.stream.dropWhile Token.isComment).length := by
  rw [(looked_of_none h).2]
  unfold fetch
  split
  · simp [askable, Token.finish, Token.isOrdinary]
  · rename_i t ts more
    dsimp only
    split
    · simp [askable, Token.finish, Token.isOrdinary]
    · simp [askable, Token.finish, Token.isOrdinary]
    · rename_i noError noEnd
      rw [more]
      simp only [askable, List.length_cons]
      split <;> omega

theorem askable_advance (r : Reader) : r.advance.askable = r.looked.askable := by
  cases ordinary : r.head.isOrdinary with
  | true => simp [advance_of_ordinary ordinary, askable, buffer_looked, ordinary]
  | false => rw [advance_of_finished ordinary]

end Reader

namespace Asker

/-- How often the tokenizer was asked and can still be asked. -/
def limit (s : Asker) : Nat := s.asked + s.reader.askable

theorem limit_look_le (s : Asker) : s.look.limit ≤ s.limit := by
  unfold limit look ask
  cases held : s.reader.buffer with
  | some t => simp [Reader.looked_of_some held]
  | none =>
    have := Reader.asks_add_length_dropWhile s.reader.stream
    have := Reader.askable_looked_le held
    simp only [held, Reader.askable, Option.isSome_none, Bool.false_eq_true, if_false] at this ⊢
    omega

theorem limit_take_le (s : Asker) : s.take.limit ≤ s.limit := by
  have look := s.limit_look_le
  rw [limit, reader_take, Reader.askable_advance]
  exact look

end Asker

/-- Nothing makes the tokenizer be asked more often than that. -/
theorem Script.limit_le_of_perform {α : Type} {answers : Routine.Answers}
    (modest : ∀ c s x s', answers c s = some (x, s') → s'.limit ≤ s.limit) {p : Script α}
    {s s' : Asker} {x : Except SyntaxError α} (run : p.perform answers s = some (x, s')) :
    s'.limit ≤ s.limit := by
  induction p generalizing s with
  | done a | fail e =>
    cases run
    exact Nat.le_refl _
  | peek k ih => exact Nat.le_trans (ih _ run) s.limit_look_le
  | take k ih => exact Nat.le_trans (ih _ run) s.limit_take_le
  | last k ih | errors k ih => exact ih _ run
  | note e k ih => exact ih (s := { s with reader := s.reader.note e }) run
  | call c k ih =>
    rw [Script.perform] at run
    split at run
    · cases run
    · rename_i answered
      exact Nat.le_trans (ih _ run) (modest _ _ _ _ answered)

theorem Routine.limit_le_of_perform {depth : Nat} {c : Routine} {s s' : Asker}
    {x : Except SyntaxError c.Value} (run : perform depth c s = some (x, s')) :
    s'.limit ≤ s.limit := by
  induction depth generalizing c s s' with
  | zero => cases run
  | succ depth ih => exact Script.limit_le_of_perform (fun _ _ _ _ answered => ih answered) run

namespace Routine

variable {depth : Nat}

theorem calls_tighter_of_loose {right : Expr} {power : Nat} {s : Asker}
    (h : s.reader.operator? power = none) : (Routine.tighter right power).calls depth s = [] := by
  have h' : Script.operator? power s.reader.head = none := h
  simp [calls, script, Script.calls, h']

/-- The loop on a right operand folds at most once: it goes round only to find nothing more. -/
theorem calls_tighter (right : Expr) (power : Nat) (s : Asker) :
    (Routine.tighter right power).calls depth s = [] ∨
      ∃ later, (Routine.tighter right power).calls depth s =
        (.binary right power, s.look) :: later ∧
        ∀ c' s', (c', s') ∈ later → (∃ right', c' = .tighter right' power) ∧
          ∀ depth', c'.calls depth' s' = [] := by
  cases loose : s.reader.operator? power with
  | none => exact .inl (calls_tighter_of_loose loose)
  | some op =>
    have tight : Script.operator? power s.reader.head = some op := loose
    simp only [calls, script, Script.calls, tight, Option.isSome_some, if_true]
    refine .inr ⟨_, Script.calls_invoke_bind (c := .binary right power), fun c' s' made => ?_⟩
    split at made
    · rename_i right' s₁ folded
      rw [Script.calls_invoke (c := .tighter right' power), List.mem_singleton] at made
      cases made
      have gives := sound_perform depth _ _ _ _ folded
      exact ⟨⟨right', rfl⟩, fun _ => calls_tighter_of_loose (Reader.operator?_of_binary gives)⟩
    · cases made

/-- Whether a function is the loop on a right operand. -/
def isLoop : Routine → Bool
  | .tighter _ _ => true
  | _ => false

/-- Every operator that is taken starts the loop on its right operand once. -/
theorem calls_binary (left : Expr) (least : Nat) (s : Asker) :
    (((Routine.binary left least).calls depth s).filter (·.1.isLoop)).length ≤ 1 := by
  simp only [calls, script, Script.calls]
  split
  · rename_i op _
    rw [Script.calls, Script.calls_invoke_bind (c := .unary)]
    split
    · rename_i right s₁ _
      rw [Script.calls_invoke_bind (c := .tighter right op.power)]
      split
      · rename_i right' s₂ _
        rw [Script.calls_invoke (c := .binary (.binary op left right') least)]
        simp [isLoop]
      · simp [isLoop]
    · simp [isLoop]
  · simp [Script.calls]

end Routine

/-- Parsing ends, whatever the tokens are: every call leaves less to do than the call that makes it,
a round of the outermost loop takes a token, the loop on a right operand goes round once, and the
tokenizer is asked for at most one token behind its last. -/
theorem Routine.parsing_ends :
    (∀ (ts : List Token) (depth : Nat), 7 * ts.length + 6 < depth →
      ∃ s, perform depth .run { reader := { stream := ts } } = some (.ok (.ofTokens ts), s) ∧
        s.asked ≤ ts.length + 1) ∧
    (∀ depth c s c' s', (c', s') ∈ calls depth c s →
      s'.size < s.size ∨ s'.size = s.size ∧ c'.level < c.level) ∧
    (∀ depth s s', (.run, s') ∈ calls depth .run s → s'.size < s.size) ∧
    (∀ depth left least s, ((calls depth (.binary left least) s).filter (·.1.isLoop)).length ≤ 1) ∧
    (∀ depth right power s, calls depth (.tighter right power) s = [] ∨
      ∃ later, calls depth (.tighter right power) s = (.binary right power, s.look) :: later ∧
        ∀ c' s', (c', s') ∈ later → (∃ right', c' = .tighter right' power) ∧
          ∀ depth', calls depth' c' s' = []) := by
  refine ⟨fun ts depth deep => ?_, fun depth c s c' s' made => ?_, fun depth s s' made => ?_,
    fun depth => calls_binary, fun depth => calls_tighter⟩
  · have few : Reader.size { stream := ts } ≤ ts.length := by
      rw [Reader.size, Reader.tokens, Reader.pending]
      exact ((List.filter_sublist ..).trans (List.takeWhile_sublist _)).length_le
    have ends : (perform depth .run { reader := { stream := ts } }).isSome :=
      perform_isSome (by simp only [rank, level]; omega)
    obtain ⟨⟨x, s⟩, run⟩ := Option.isSome_iff_exists.1 ends
    have gives := sound_perform depth _ _ _ _ run
    have asked := limit_le_of_perform run
    cases gives
    refine ⟨s, run, ?_⟩
    simp only [Asker.limit, Reader.askable] at asked
    omega
  · exact rank_lt_iff.1 (rank_lt_of_mem_calls made)
  · rcases rank_lt_iff.1 (rank_lt_of_mem_calls made) with fewer | same
    · exact fewer
    · exact absurd same.2 (Nat.lt_irrefl _)

theorem Routine.parsing_ends_truth :
    (∃ s, perform 21 .run
        { reader := { stream := [⟨.true, "true", none⟩, ⟨.semicolon, ";", none⟩] } } =
          some (.ok (.ofTokens [⟨.true, "true", none⟩, ⟨.semicolon, ";", none⟩]), s) ∧
        s.asked ≤ 3) ∧
      Asker.size { reader := { stream := [] }, asked := 2 } <
        Asker.size
          { reader := { stream := [⟨.true, "true", none⟩, ⟨.semicolon, ";", none⟩] } } :=
  ⟨parsing_ends.1 _ 21 (by decide), parsing_ends.2.2.1 4 _ _ (.tail _ (.head _))⟩

end LetWhile
