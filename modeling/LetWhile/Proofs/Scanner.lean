import LetWhile.Proofs.Layout

/-!
# The scanner step by step

The scanner as a machine that looks at one character in a step. Behind the last character it sees
the null character, or the replacement character if reading fails; it can look at either as often as
it likes, and passes over none. All its loops stop at both, except for the one that reads a comment:
that one goes on where reading fails (`Scanner.run_stuck`). Here the machine is run through a token
(`Scanner.run_munched`), to a place where no token starts (`Scanner.run_unreadable`), and at the end
of a text (`Scanner.run_finish`).
-/

namespace LetWhile

/-- The loops that read characters of one class. -/
inductive Scanner.Loop where
  | whole
  | places (whole : List Char)
  | word
  | comment

/-- What the scanner does: it looks for a token, reads a number, a word or a comment, looks for an
operator, or has stopped. -/
inductive Scanner.State where
  | idle
  | reading (loop : Loop) (read : List Char)
  | symbol
  | stopped

/-- The characters that were not read, where they begin, where the token begins that is being read,
and the tokens sent so far. -/
structure Scanner where
  rest : List Char
  pos : Pos := {}
  start : Pos := {}
  state : Scanner.State := .idle
  sent : List Token := []

/-- The character that a scanner sees. -/
def Source.peek (s : Source) (rest : List Char) : Char :=
  rest.headD (if s.fails then Text.replacement else Source.endMark)

namespace Scanner

def Loop.takes : Loop → Char → Bool
  | .whole, c | .places _, c => Text.isAsciiDigit c
  | .word, c => Lexeme.inWord c
  | .comment, c => c ≠ '\n' && c ≠ Source.endMark

/-- Reads a character, if there is one. -/
def next (m : Scanner) : Scanner :=
  match m.rest with
  | [] => m
  | c :: cs => { m with rest := cs, pos := m.pos.next c }

def malformed (lexeme : List Char) : String := s!"malformed number '{String.ofList lexeme}'"

variable (s : Source)

/-- Sends a token, which begins where the last one was looked for. -/
def send (m : Scanner) (kind : Token.Kind) (value : String) (state : State) : Scanner :=
  { m with state := state, sent := m.sent ++ [⟨kind, value, some (m.start.toLoc s.file)⟩] }

/-- What follows a loop, at a character that it does not take. -/
def leave (m : Scanner) (read : List Char) : Loop → Scanner
  | .whole =>
    if s.peek m.rest = '.' then { m.next with state := .reading (.places read) [] }
    else m.send s .number (String.ofList read) .idle
  | .places whole =>
    if read.isEmpty then m.send s .error (malformed (whole ++ ['.'])) .stopped
    else m.send s .number (String.ofList (whole ++ '.' :: read)) .idle
  | .word =>
    m.send s ((Lexeme.keywords.lookup read).getD .identifier) (String.ofList read) .idle
  | .comment => m.send s .lineComment (String.ofList read) .idle

/-- One step. It sends a token, passes over a character or takes one, or decides what to read. -/
def step (m : Scanner) : Scanner :=
  let c := s.peek m.rest
  match m.state with
  | .idle =>
    let m := { m with start := m.pos }
    if c = Source.endMark then m.next.send s .eof "\x00" .stopped
    else if Text.isSpace c then m.next
    else if Text.isAsciiDigit c then { m with state := .reading .whole [] }
    else if Lexeme.startsWord c then { m with state := .reading .word [] }
    else { m with state := .symbol }
  | .reading loop read =>
    if loop.takes c then { m.next with state := .reading loop (read ++ [c]) }
    else m.leave s read loop
  | .symbol =>
    match Lexeme.operators.find? (·.1.isPrefixOf m.rest) with
    | some (w, kind) =>
      let m := { m with rest := m.rest.drop w.length, pos := m.pos.after w }
      if kind = .lineComment then { m with state := .reading .comment [] }
      else m.send s kind (String.ofList w) .idle
    | none => m.next.send s .error (Lexeme.cannotRead c) .stopped
  | .stopped => m

/-- The machine after so many steps. -/
def run : Nat → Scanner → Scanner
  | 0, m => m
  | n + 1, m => run n (m.step s)

theorem run_add (n k : Nat) (m : Scanner) : run s (n + k) m = run s k (run s n m) := by
  induction n generalizing m with
  | zero => rw [Nat.zero_add, run]
  | succ n ih => rw [Nat.succ_add, run, run, ih]

/-- What the request with this number gets from a scanner that has stopped. -/
def get (m : Scanner) (i : Nat) : Token :=
  m.sent[i]?.getD ⟨.eof, "", some (m.pos.toLoc s.file)⟩

/-- Requests tokens up to the end or an error. -/
def collect : List Token → Except String (List Token)
  | [] => .ok []
  | t :: ts =>
    if t.kind = .eof then .ok []
    else if t.kind = .error then .error s!"{Loc.describe t.loc}: {t.text}"
    else (collect ts).map (t :: ·)

variable {s}

/-! ## The loops -/

/-- A loop reads the characters that it takes, one in a step. -/
theorem run_reading {loop : Loop} {cs : List Char} (takes : ∀ c ∈ cs, loop.takes c = true)
    (tail : List Char) (p q : Pos) (read : List Char) (sent : List Token) :
    run s cs.length ⟨cs ++ tail, p, q, .reading loop read, sent⟩ =
      ⟨tail, p.after cs, q, .reading loop (read ++ cs), sent⟩ := by
  induction cs generalizing p read with
  | nil => simp [run, Pos.after]
  | cons c cs ih =>
    have taken : step s ⟨c :: (cs ++ tail), p, q, .reading loop read, sent⟩ =
        ⟨cs ++ tail, p.next c, q, .reading loop (read ++ [c]), sent⟩ := by
      simp [step, Source.peek, takes c List.mem_cons_self, next]
    rw [List.length_cons, List.cons_append, run, taken,
      ih (fun d there => takes d (List.mem_cons_of_mem c there)), List.append_assoc]
    rfl

/-- A comment in which reading fails is read without end. -/
theorem run_stuck (fails : s.fails = true) (n : Nat) (p q : Pos) (read : List Char)
    (sent : List Token) :
    run s n ⟨[], p, q, .reading .comment read, sent⟩ =
      ⟨[], p, q, .reading .comment (read ++ List.replicate n Text.replacement), sent⟩ := by
  induction n generalizing read with
  | zero => simp [run]
  | succ n ih =>
    have stays : step s ⟨[], p, q, .reading .comment read, sent⟩ =
        ⟨[], p, q, .reading .comment (read ++ [Text.replacement]), sent⟩ := by
      simp [step, Source.peek, fails, next, Loop.takes, Text.replacement, Source.endMark]
    rw [run, stays, ih, List.append_assoc, List.replicate_succ]
    rfl

end Scanner

/-! ## What stands behind the body -/

namespace Source

variable {s : Source}

/-- What is never read: the first end mark and what follows it. -/
def behind (s : Source) : List Char := s.chars.dropWhile (· ≠ endMark)

theorem body_append_behind (s : Source) : s.body ++ s.behind = s.chars :=
  List.takeWhile_append_dropWhile

theorem endMark_not_mem_body (s : Source) : endMark ∉ s.body := by
  intro there
  simpa using List.mem_takeWhile_imp there

theorem behind_eq_nil_iff : s.behind = [] ↔ endMark ∉ s.chars := by
  simp only [behind, List.dropWhile_eq_nil_iff, decide_eq_true_eq]
  exact ⟨fun h there => h _ there rfl, fun h c there same => h (same ▸ there)⟩

/-- The three ways in which a text ends, and what is left of it. -/
theorem ending_cases (s : Source) :
    s.ending = .mark ∧ (∃ tail, s.behind = endMark :: tail) ∨
    s.ending = .endOfFile ∧ s.behind = [] ∧ s.fails = false ∨
    s.ending = .failure ∧ s.behind = [] ∧ s.fails = true := by
  unfold ending
  by_cases marked : endMark ∈ s.chars
  · rw [if_pos marked]
    refine .inl ⟨rfl, ?_⟩
    obtain ⟨c, tail, split⟩ :=
      List.exists_cons_of_ne_nil fun none => behind_eq_nil_iff.1 none marked
    have first := Lexeme.head?_dropWhile_eq_false (· ≠ endMark) s.chars c
      (by rw [behind] at split; rw [split]; rfl)
    simp only [ne_eq, decide_not, Bool.not_eq_false', decide_eq_true_eq] at first
    exact ⟨tail, by rw [split, first]⟩
  · rw [if_neg marked]
    have none := behind_eq_nil_iff.2 marked
    cases fails : s.fails with
    | true => exact .inr (.inr ⟨rfl, none, rfl⟩)
    | false => exact .inr (.inl ⟨rfl, none, rfl⟩)

theorem of_failure (h : s.ending = .failure) : s.behind = [] ∧ s.fails = true := by
  rcases s.ending_cases with ⟨ending, -⟩ | ⟨ending, -⟩ | ⟨-, none, fails⟩
  · cases h.symm.trans ending
  · cases h.symm.trans ending
  · exact ⟨none, fails⟩

/-- Behind the body the end mark is seen, or the replacement character if reading fails there. -/
theorem peek_behind {P : Char → Prop} {rest : List Char} (h : ∀ c ∈ rest.head?, P c)
    (mark : P endMark) (failure : rest = [] → s.ending = .failure → P Text.replacement) :
    P (s.peek (rest ++ s.behind)) := by
  cases rest with
  | cons c rest => exact h c rfl
  | nil =>
    rw [List.nil_append, peek]
    rcases s.ending_cases with ⟨-, tail, some⟩ | ⟨-, none, reads⟩ | ⟨failed, none, fails⟩
    · rw [some]
      exact mark
    · rw [none, reads]
      exact mark
    · rw [none, fails]
      exact failure rfl failed

/-- No operator reaches behind the body. -/
theorem isPrefix_of_isPrefix_behind {e : List Char × Token.Kind} {cs : List Char}
    (entry : e ∈ Lexeme.operators) (h : e.1 <+: cs ++ s.behind) : e.1 <+: cs := by
  have marks : ∀ e ∈ Lexeme.operators, endMark ∉ e.1 := by decide
  have free := marks e entry
  obtain ⟨w, kind⟩ := e
  dsimp only at h free ⊢
  rcases Nat.le_total w.length cs.length with le | le
  · exact List.prefix_of_prefix_length_le h (List.prefix_append ..) le
  · obtain ⟨more, rfl⟩ := List.prefix_of_prefix_length_le (List.prefix_append cs s.behind) h le
    rw [List.prefix_append_right_inj] at h
    cases more with
    | nil => simp
    | cons c more =>
      rcases s.ending_cases with ⟨-, tail, some⟩ | ⟨-, none, -⟩ | ⟨-, none, -⟩
      · rw [some, List.cons_prefix_cons] at h
        simp [h.1] at free
      · rw [none] at h
        cases List.prefix_nil.1 h
      · rw [none] at h
        cases List.prefix_nil.1 h

end Source

theorem Lexeme.number_broken {ds cs : List Char} (digits : ∀ d ∈ ds, Text.isAsciiDigit d = true)
    (behind : ∀ c ∈ cs.head?, Text.isAsciiDigit c = false) :
    number (ds ++ '.' :: cs) =
      .broken (Scanner.malformed (ds ++ ['.'])) (ds ++ ['.']) cs := by
  have point : ∀ c ∈ ('.' :: cs).head?, Text.isAsciiDigit c = false := by
    intro c there
    cases there
    decide
  have none : cs.takeWhile Text.isAsciiDigit = [] ∧ cs.dropWhile Text.isAsciiDigit = cs := by
    cases cs with
    | nil => exact ⟨rfl, rfl⟩
    | cons c cs => simp [behind c rfl]
  unfold number
  rw [takeWhile_append_of_behind digits point, dropWhile_append_of_behind digits point]
  simp only [none, List.isEmpty_nil, if_true]
  rfl

theorem Token.Munched.line_of_comment {value rest : List Char}
    (h : Munched .lineComment value rest) : '\n' ∉ value := by
  cases h with
  | comment line => exact line
  | keyword entry =>
    have proper : ∀ e ∈ Lexeme.keywords, e.2 ≠ .lineComment := by decide
    exact absurd rfl (proper _ entry)
  | operator entry proper => exact absurd rfl proper

namespace Scanner

variable {s : Source}

/-! ## Tokens -/

theorem step_space {c : Char} (space : Text.isSpace c = true) (cs : List Char) (p q : Pos)
    (sent : List Token) :
    step s ⟨c :: cs, p, q, .idle, sent⟩ = ⟨cs, p.next c, p, .idle, sent⟩ := by
  have mark : c ≠ Source.endMark := by
    rintro rfl
    cases space
  simp [step, Source.peek, mark, space, next]

theorem step_digit {c : Char} (digit : Text.isAsciiDigit c = true) (cs : List Char) (p q : Pos)
    (sent : List Token) :
    step s ⟨c :: cs, p, q, .idle, sent⟩ = ⟨c :: cs, p, p, .reading .whole [], sent⟩ := by
  have solid := Token.isSolid_of_inWord (Lexeme.inWord_of_isAsciiDigit digit)
  simp only [Token.isSolid, Bool.and_eq_true, Bool.not_eq_true', bne_iff_ne] at solid
  simp [step, Source.peek, solid, digit]

theorem step_word {c : Char} (word : Lexeme.startsWord c = true) (cs : List Char) (p q : Pos)
    (sent : List Token) :
    step s ⟨c :: cs, p, q, .idle, sent⟩ = ⟨c :: cs, p, p, .reading .word [], sent⟩ := by
  have solid := Token.isSolid_of_inWord (Lexeme.inWord_of_startsWord word)
  simp only [Token.isSolid, Bool.and_eq_true, Bool.not_eq_true', bne_iff_ne] at solid
  simp [step, Source.peek, solid, Lexeme.isAsciiDigit_of_startsWord word, word]

theorem step_symbol {c : Char} (solid : Token.isSolid c = true)
    (digit : Text.isAsciiDigit c = false) (word : Lexeme.startsWord c = false) (cs : List Char)
    (p q : Pos) (sent : List Token) :
    step s ⟨c :: cs, p, q, .idle, sent⟩ = ⟨c :: cs, p, p, .symbol, sent⟩ := by
  simp only [Token.isSolid, Bool.and_eq_true, Bool.not_eq_true', bne_iff_ne] at solid
  simp [step, Source.peek, solid, digit, word]

/-- At the end of a loop the machine leaves it. -/
theorem step_leave {loop : Loop} {tail : List Char} (stops : loop.takes (s.peek tail) = false)
    (p q : Pos) (read : List Char) (sent : List Token) :
    step s ⟨tail, p, q, .reading loop read, sent⟩ =
      leave s ⟨tail, p, q, .reading loop read, sent⟩ read loop := by
  simp [step, stops]

/-- A loop and the step behind it. -/
theorem run_loop (loop : Loop) {cs tail : List Char} (takes : ∀ c ∈ cs, loop.takes c = true)
    (stops : loop.takes (s.peek tail) = false) (p q : Pos) (sent : List Token) :
    run s (cs.length + 1) ⟨cs ++ tail, p, q, .reading loop [], sent⟩ =
      leave s ⟨tail, p.after cs, q, .reading loop cs, sent⟩ cs loop := by
  rw [run_add, run_reading takes, List.nil_append, run, run, step_leave stops]

variable (p q : Pos) (sent : List Token)

theorem run_whole {ds tail : List Char} (nonempty : ds ≠ [])
    (digits : ∀ d ∈ ds, Text.isAsciiDigit d = true)
    (stops : Text.isAsciiDigit (s.peek tail) = false) :
    run s (ds.length + 2) ⟨ds ++ tail, p, q, .idle, sent⟩ =
      leave s ⟨tail, p.after ds, p, .reading .whole ds, sent⟩ ds .whole := by
  obtain ⟨d, ds, rfl⟩ := List.exists_cons_of_ne_nil nonempty
  rw [List.cons_append, run, step_digit (digits d List.mem_cons_self), ← List.cons_append]
  exact run_loop .whole digits stops p p sent

/-- A whole number with its point, and the digits behind it. -/
theorem run_places {ds ps tail : List Char} (nonempty : ds ≠ [])
    (digits : ∀ d ∈ ds, Text.isAsciiDigit d = true)
    (decimals : ∀ d ∈ ps, Text.isAsciiDigit d = true)
    (stops : Text.isAsciiDigit (s.peek tail) = false) :
    run s ((ds ++ '.' :: ps).length + 2) ⟨ds ++ '.' :: (ps ++ tail), p, q, .idle, sent⟩ =
      leave s ⟨tail, p.after (ds ++ '.' :: ps), p, .reading (.places ds) ps, sent⟩ ps
        (.places ds) := by
  have steps : (ds ++ '.' :: ps).length + 2 = (ds.length + 2) + (ps.length + 1) := by
    simp only [List.length_append, List.length_cons]
    omega
  have point : leave s ⟨'.' :: (ps ++ tail), p.after ds, p, .reading .whole ds, sent⟩ ds .whole =
      ⟨ps ++ tail, (p.after ds).next '.', p, .reading (.places ds) [], sent⟩ := rfl
  rw [steps, run_add, run_whole p q sent nonempty digits rfl, point,
    run_loop (.places ds) decimals stops]
  simp [Pos.after]

theorem run_word {w tail : List Char} {kind : Token.Kind}
    (first : ∃ c cs, w = c :: cs ∧ Lexeme.startsWord c = true)
    (word : ∀ c ∈ w, Lexeme.inWord c = true) (stops : Lexeme.inWord (s.peek tail) = false)
    (named : (Lexeme.keywords.lookup w).getD .identifier = kind) :
    run s (w.length + 2) ⟨w ++ tail, p, q, .idle, sent⟩ =
      ⟨tail, p.after w, p, .idle, sent ++ [⟨kind, String.ofList w, some (p.toLoc s.file)⟩]⟩ := by
  obtain ⟨c, cs, rfl, start⟩ := first
  rw [List.cons_append, run, step_word start, ← List.cons_append]
  refine (run_loop .word word stops p p sent).trans ?_
  rw [leave, named, send]

theorem step_operator {w tail : List Char} {kind : Token.Kind}
    (found : Lexeme.operators.find? (·.1.isPrefixOf (w ++ tail)) = some (w, kind))
    (proper : kind ≠ .lineComment) :
    step s ⟨w ++ tail, p, q, .symbol, sent⟩ =
      ⟨tail, p.after w, q, .idle, sent ++ [⟨kind, String.ofList w, some (q.toLoc s.file)⟩]⟩ := by
  simp only [step, found, proper, if_false, List.drop_left, send]

theorem run_operator {w tail : List Char} {kind : Token.Kind}
    (entry : (w, kind) ∈ Lexeme.operators) (proper : kind ≠ .lineComment)
    (longest : ∀ e ∈ Lexeme.operators, e.1 <+: w ++ tail → e.1.length ≤ w.length) :
    run s 2 ⟨w ++ tail, p, q, .idle, sent⟩ =
      ⟨tail, p.after w, p, .idle, sent ++ [⟨kind, String.ofList w, some (p.toLoc s.file)⟩]⟩ := by
  have table : ∀ e ∈ Lexeme.operators, e.1.head?.map
      (fun c => Token.isSolid c && !Text.isAsciiDigit c && !Lexeme.startsWord c) = some true := by
    decide +kernel
  obtain ⟨c, head, first⟩ := Option.map_eq_some_iff.1 (table _ entry)
  obtain ⟨cs, rfl⟩ := List.head?_eq_some_iff.1 head
  simp only [Bool.and_eq_true, Bool.not_eq_true'] at first
  rw [List.cons_append, run, step_symbol first.1.1 first.1.2 first.2, ← List.cons_append, run, run,
    step_operator p p sent (Lexeme.find_of_longest entry longest) proper]

theorem run_opening (cs : List Char) :
    run s 2 ⟨'/' :: '/' :: cs, p, q, .idle, sent⟩ =
      ⟨cs, p.after ['/', '/'], p, .reading .comment [], sent⟩ := by
  rw [run, step_symbol (by decide) (by decide) (by decide)]
  rfl

theorem run_comment {value tail : List Char}
    (takes : ∀ c ∈ value, Loop.comment.takes c = true)
    (stops : Loop.comment.takes (s.peek tail) = false) :
    run s (2 + (value.length + 1)) ⟨'/' :: '/' :: (value ++ tail), p, q, .idle, sent⟩ =
      ⟨tail, p.after ('/' :: '/' :: value), p, .idle,
        sent ++ [⟨.lineComment, String.ofList value, some (p.toLoc s.file)⟩]⟩ := by
  rw [run_add, run_opening, run_loop .comment takes stops, leave, send]
  rfl

theorem takes_comment {value : List Char} (line : '\n' ∉ value) (free : Source.endMark ∉ value) :
    ∀ c ∈ value, Loop.comment.takes c = true := by
  intro c there
  have other : c ≠ '\n' := fun same => line (same ▸ there)
  have mark : c ≠ Source.endMark := fun same => free (same ▸ there)
  simp [Loop.takes, other, mark]

/-- A token is read and sent, unless it is a comment in which reading fails. -/
theorem run_munched {kind : Token.Kind} {value rest : List Char}
    (munched : Token.Munched kind value rest) (free : Source.endMark ∉ kind.spelling value)
    (closes : ¬ (kind = .lineComment ∧ rest = [] ∧ s.ending = .failure)) :
    ∃ n ≤ 3 * (kind.spelling value).length,
      run s n ⟨kind.spelling value ++ (rest ++ s.behind), p, q, .idle, sent⟩ =
        ⟨rest ++ s.behind, p.after (kind.spelling value), p, .idle,
          sent ++ [⟨kind, String.ofList value, some (p.toLoc s.file)⟩]⟩ := by
  have positive := List.length_pos_iff.2 munched.ne_nil
  cases munched with
  | whole nonempty digits behind =>
    have spelled : Token.Kind.number.spelling value = value := rfl
    have stops := s.peek_behind (P := fun c => Text.isAsciiDigit c = false ∧ c ≠ '.') behind
      (by decide) fun _ _ => by decide
    rw [spelled] at positive ⊢
    refine ⟨value.length + 2, by omega, (run_whole p q sent nonempty digits stops.1).trans ?_⟩
    rw [leave, if_neg stops.2, send]
  | @decimal ds ps _ nonempty digits places decimals behind =>
    have spelled : Token.Kind.number.spelling (ds ++ '.' :: ps) = ds ++ '.' :: ps := rfl
    have stops := s.peek_behind (P := fun c => Text.isAsciiDigit c = false) behind
      (by decide) fun _ _ => by decide
    rw [spelled] at positive ⊢
    rw [List.append_assoc, List.cons_append]
    refine ⟨(ds ++ '.' :: ps).length + 2, by omega,
      (run_places p q sent nonempty digits decimals stops).trans ?_⟩
    rw [leave, if_neg (by simpa using places), send]
  | keyword entry behind =>
    have table : ∀ e ∈ Lexeme.keywords, e.2.spelling e.1 = e.1 ∧
        (Lexeme.keywords.lookup e.1).getD .identifier = e.2 ∧
        e.1.head?.map Lexeme.startsWord = some true := by decide +kernel
    obtain ⟨spelled, named, start⟩ : kind.spelling value = value ∧ _ ∧ _ := table _ entry
    obtain ⟨c, head, first⟩ := Option.map_eq_some_iff.1 start
    obtain ⟨cs, split⟩ := List.head?_eq_some_iff.1 head
    have stops := s.peek_behind (P := fun c => Lexeme.inWord c = false) behind
      (by decide) fun _ _ => by decide +kernel
    rw [spelled] at positive ⊢
    exact ⟨value.length + 2, by omega,
      run_word p q sent ⟨c, cs, split, first⟩ (Lexeme.inWord_of_keyword entry) stops named⟩
  | @identifier c cs _ first others unused behind =>
    have spelled : Token.Kind.identifier.spelling (c :: cs) = c :: cs := rfl
    have word : ∀ x ∈ c :: cs, Lexeme.inWord x = true := by
      rintro x (_ | ⟨_, there⟩)
      · exact Lexeme.inWord_of_startsWord first
      · exact others x there
    have stops := s.peek_behind (P := fun c => Lexeme.inWord c = false) behind
      (by decide) fun _ _ => by decide +kernel
    rw [spelled] at positive ⊢
    exact ⟨(c :: cs).length + 2, by omega, run_word p q sent ⟨c, cs, rfl, first⟩ word stops
      (by rw [Lexeme.lookup_of_free unused]; rfl)⟩
  | operator entry proper longest =>
    have spelled : kind.spelling value = value := by rw [Token.Kind.spelling, if_neg proper]
    rw [spelled] at positive ⊢
    refine ⟨2, by omega, run_operator p q sent entry proper fun e there fits => ?_⟩
    rw [← List.append_assoc] at fits
    exact longest e there (Source.isPrefix_of_isPrefix_behind there fits)
  | comment line behind =>
    have spelled : Token.Kind.lineComment.spelling value = '/' :: '/' :: value := rfl
    have stops := s.peek_behind (P := fun c => Loop.comment.takes c = false)
      (fun c there => by rw [behind c there]; rfl) rfl
      fun empty failed => absurd ⟨rfl, empty, failed⟩ closes
    rw [spelled] at free ⊢
    have takes := takes_comment line fun there => free (by simp [there])
    exact ⟨2 + (value.length + 1), by simp only [List.length_cons]; omega,
      run_comment p q sent takes stops⟩

/-- A text that starts with no token is reported, and the machine stops. -/
theorem run_unreadable {c : Char} {cs : List Char} (unreadable : Unreadable (c :: cs))
    (free : Source.endMark ∉ c :: cs) :
    ∃ n ≤ 3 * (c :: cs).length, ∃ message lexeme rest rest',
      Lexeme.read c cs = .broken message lexeme rest ∧
      run s n ⟨c :: cs ++ s.behind, p, q, .idle, sent⟩ =
        ⟨rest', p.after lexeme, p, .stopped,
          sent ++ [⟨.error, message, some (p.toLoc s.file)⟩]⟩ := by
  generalize text : c :: cs = whole at unreadable
  cases unreadable with
  | symbol space digit word operator =>
    cases text
    have solid : Token.isSolid c = true := by
      have mark : c ≠ Source.endMark := fun same => free (same ▸ List.mem_cons_self)
      simp [Token.isSolid, space, mark]
    have unknown : Lexeme.operators.find? (·.1.isPrefixOf (c :: cs)) = none := by
      simpa [List.isPrefixOf_iff_prefix] using operator
    have unknown' : Lexeme.operators.find? (·.1.isPrefixOf (c :: cs ++ s.behind)) = none := by
      rw [List.find?_eq_none]
      intro e there fits
      rw [List.isPrefixOf_iff_prefix] at fits
      exact operator e there (Source.isPrefix_of_isPrefix_behind there fits)
    refine ⟨2, by simp only [List.length_cons]; omega, Lexeme.cannotRead c, [c], cs,
      cs ++ s.behind, ?_, ?_⟩
    · simp [Lexeme.read, digit, word, Lexeme.operator, unknown]
    · rw [List.cons_append, run, step_symbol solid digit word, ← List.cons_append, run, run, step]
      simp only [unknown']
      rfl
  | @number ds rest nonempty digits behind =>
    have first : Text.isAsciiDigit c = true := by
      obtain ⟨d, ds, rfl⟩ := List.exists_cons_of_ne_nil nonempty
      cases text
      exact digits c List.mem_cons_self
    have stops := s.peek_behind (P := fun c => Text.isAsciiDigit c = false) behind
      (by decide) fun _ _ => by decide
    refine ⟨(ds ++ ['.']).length + 2, ?_,
      malformed (ds ++ ['.']), ds ++ ['.'], rest, rest ++ s.behind, ?_, ?_⟩
    · have positive := List.length_pos_iff.2 nonempty
      simp only [List.length_append, List.length_cons, List.length_nil]
      omega
    · rw [Lexeme.read, if_pos first, text]
      exact Lexeme.number_broken digits behind
    · rw [List.append_assoc, List.cons_append]
      refine (run_places p q sent nonempty digits (List.forall_mem_nil _) stops).trans ?_
      rfl

/-- Behind the body the machine stops with the end or at the failing read. -/
theorem run_finish :
    ∃ last after rest, Scan.finish s p = ⟨[], .last last after⟩ ∧
      run s 2 ⟨s.behind, p, q, .idle, sent⟩ = ⟨rest, after, p, .stopped, sent ++ [last]⟩ := by
  rcases s.ending_cases with ⟨ending, tail, some⟩ | ⟨ending, none, reads⟩ | ⟨ending, none, fails⟩
  · refine ⟨_, _, tail, by rw [Scan.finish, ending], ?_⟩
    rw [some]
    rfl
  · refine ⟨_, _, [], by rw [Scan.finish, ending], ?_⟩
    rw [none]
    simp [run, step, Source.peek, reads, next, send]
  · refine ⟨_, _, [], by rw [Scan.finish, ending], ?_⟩
    -- The replacement character is neither a blank nor the start of a token.
    have seen : s.peek [] = Text.replacement := by simp [Source.peek, fails]
    have mark : Text.replacement ≠ Source.endMark := by decide
    have class_ : Text.isSpace Text.replacement = false ∧
        Text.isAsciiDigit Text.replacement = false ∧
        Lexeme.startsWord Text.replacement = false := by decide +kernel
    have unknown : Lexeme.operators.find? (·.1.isPrefixOf []) = .none := by decide
    rw [none]
    simp [run, step, seen, mark, class_, unknown, next, send]

end Scanner

end LetWhile
