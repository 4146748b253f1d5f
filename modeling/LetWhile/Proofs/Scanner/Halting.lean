import LetWhile.Proofs.Scanner

/-!
# Whether the scanner stops

The scanner stops with one last token unless reading fails in a comment, and there it never does
(`Source.scanner_stops_iff`). Where it stops, it has sent what the scan of the text says
(`Source.scanner_follows_scan`). Both follow a text as `Scan.Reads` takes it apart: blanks, tokens,
and an end, a comment in which reading fails, or a place where no token starts.
-/

namespace LetWhile

namespace Scan

theorem scanFrom_open {s : Source} (p : Pos) (failed : s.ending = .failure) {value : List Char}
    (line : '\n' ∉ value) : scanFrom s p ('/' :: '/' :: value) = ⟨[], .never⟩ := by
  have munched : Token.Munched .lineComment value [] := .comment line nofun
  have read : Lexeme.read '/' ('/' :: value) = .token .lineComment value _ [] :=
    Lexeme.read_of_munched munched (List.append_nil _).symm
  rw [scanFrom, if_neg (by decide), read]
  simp only [failed, and_self, if_true]

end Scan

/-- What there is to read, from the place `p` on, and what the scan of it is. -/
inductive Scan.Reads (s : Source) : Pos → List Char → Scan → Prop where
  | finish {p : Pos} : Reads s p [] (Scan.finish s p)
  | blank {p : Pos} {c : Char} {cs : List Char} {scan : Scan} (space : Text.isSpace c = true)
      (more : Reads s (p.next c) cs scan) : Reads s p (c :: cs) scan
  | token {p : Pos} {kind : Token.Kind} {value rest : List Char} {scan : Scan}
      (munched : Token.Munched kind value rest)
      (closes : ¬ (kind = .lineComment ∧ rest = [] ∧ s.ending = .failure))
      (more : Reads s (p.after (kind.spelling value)) rest scan) :
      Reads s p (kind.spelling value ++ rest)
        ⟨⟨kind, String.ofList value, some (p.toLoc s.file)⟩ :: scan.tokens, scan.stop⟩
  | opens {p : Pos} {value : List Char} (failed : s.ending = .failure) (line : '\n' ∉ value) :
      Reads s p ('/' :: '/' :: value) ⟨[], .never⟩
  | broken {p : Pos} {c : Char} {cs lexeme rest : List Char} {message : String}
      (unreadable : Unreadable (c :: cs)) (read : Lexeme.read c cs = .broken message lexeme rest) :
      Reads s p (c :: cs)
        ⟨[], .last ⟨.error, message, some (p.toLoc s.file)⟩ (p.after lexeme)⟩

theorem Scan.scanFrom_reads (s : Source) (p : Pos) (cs : List Char) :
    Reads s p cs (scanFrom s p cs) := by
  generalize size : cs.length = n
  induction n using Nat.strongRecOn generalizing p cs with
  | ind n ih =>
    cases cs with
    | nil =>
      rw [scanFrom]
      exact .finish
    | cons c cs =>
      by_cases space : Text.isSpace c = true
      · rw [scanFrom, if_pos space]
        exact .blank space (ih cs.length (by simp [← size]) _ cs rfl)
      · rcases Lexeme.read_spec cs (by simpa using space) with
          ⟨kind, value, rest, read, text, munched⟩ | ⟨message, lexeme, rest, read, unreadable⟩
        · by_cases opens : kind = .lineComment ∧ rest = [] ∧ s.ending = .failure
          · obtain ⟨rfl, rfl, failed⟩ := opens
            have line := munched.line_of_comment
            have opening : c :: cs = '/' :: '/' :: value := text.trans (List.append_nil _)
            rw [opening, scanFrom_open p failed line]
            exact .opens failed line
          · have spelled := congrArg List.length text
            have positive := List.length_pos_iff.2 munched.ne_nil
            simp only [List.length_append] at spelled
            rw [text, scanFrom_munched s p munched opens]
            exact .token munched opens (ih rest.length (by omega) _ rest rfl)
        · rw [scanFrom, if_neg space, read]
          exact .broken unreadable read

/-- A text that ends in a comment: blanks and tokens, and then a comment with no new line behind. -/
inductive EndsInComment : List Char → Prop where
  | opens {value : List Char} (line : '\n' ∉ value) : EndsInComment ('/' :: '/' :: value)
  | blank {c : Char} {cs : List Char} (space : Text.isSpace c = true) (more : EndsInComment cs) :
      EndsInComment (c :: cs)
  | token {kind : Token.Kind} {value rest : List Char} (munched : Token.Munched kind value rest)
      (more : EndsInComment rest) : EndsInComment (kind.spelling value ++ rest)

theorem EndsInComment.ne_nil {cs : List Char} (h : EndsInComment cs) : cs ≠ [] := by
  cases h with
  | opens | blank => nofun
  | token munched => exact List.append_ne_nil_of_left_ne_nil munched.ne_nil _

/-- A text is scanned without end if it ends in a comment and reading fails there. -/
theorem Scan.stop_eq_never_iff {s : Source} (p : Pos) (cs : List Char) :
    (scanFrom s p cs).stop = .never ↔ s.ending = .failure ∧ EndsInComment cs := by
  constructor
  · have reads := scanFrom_reads s p cs
    generalize scanFrom s p cs = scan at reads
    intro never
    induction reads with
    | finish =>
      unfold finish at never
      split at never <;> cases never
    | blank space _ ih => exact ⟨(ih never).1, .blank space (ih never).2⟩
    | token munched _ _ ih => exact ⟨(ih never).1, .token munched (ih never).2⟩
    | opens failed line => exact ⟨failed, .opens line⟩
    | broken => cases never
  · rintro ⟨failed, inside⟩
    induction inside generalizing p with
    | opens line => rw [scanFrom_open p failed line]
    | blank space more ih =>
      rw [scanFrom, if_pos space]
      exact ih _
    | token munched more ih =>
      rw [scanFrom_munched s p munched fun h => more.ne_nil h.2.1]
      exact ih _

/-- Whatever stops a scan, only its last token is no ordinary one. -/
theorem Scan.Reads.ordinary {s : Source} {p : Pos} {cs : List Char} {scan : Scan}
    (reads : Reads s p cs scan) : (∀ t ∈ scan.tokens, t.isOrdinary = true) ∧
      ∀ last after, scan.stop = .last last after → last.kind = .eof ∨ last.kind = .error := by
  induction reads with
  | @finish p =>
    unfold Scan.finish
    cases s.ending with
    | endOfFile | mark | failure => simp
  | blank _ _ ih => exact ih
  | token munched _ _ ih =>
    refine ⟨?_, ih.2⟩
    rintro t (_ | ⟨_, there⟩)
    · simp [Token.isOrdinary, munched.kind_ne]
    · exact ih.1 t there
  | opens => simp
  | broken => simp

namespace Scanner

variable {s : Source} (p q : Pos) (sent : List Token)

/-- What the machine comes to within so many steps, if the text it has before it scans like this: it
stops with the tokens sent, or comes to the end of a comment in which reading fails. -/
def Follows (s : Source) (m : Scanner) (bound : Nat) (scan : Scan) : Prop :=
  match scan.stop with
  | .last last after =>
    ∃ n ≤ bound, ∃ rest start,
      run s n m = ⟨rest, after, start, .stopped, m.sent ++ scan.tokens ++ [last]⟩
  | .never =>
    s.fails = true ∧ ∃ n pos start read sent,
      run s n m = ⟨[], pos, start, .reading .comment read, sent⟩

theorem Follows.of_run {m m' : Scanner} {n bound : Nat} {ts : List Token} {scan : Scan}
    (h : Follows s m' bound scan) (ran : run s n m = m') (sends : m'.sent = m.sent ++ ts) :
    Follows s m (n + bound) ⟨ts ++ scan.tokens, scan.stop⟩ := by
  unfold Follows at h ⊢
  dsimp only
  cases stop : scan.stop with
  | last last after =>
    rw [stop] at h
    obtain ⟨k, le, rest, start, stopped⟩ := h
    refine ⟨n + k, by omega, rest, start, ?_⟩
    rw [run_add, ran, stopped, sends, List.append_assoc m.sent]
  | never =>
    rw [stop] at h
    obtain ⟨fails, k, pos, start, read, sent, stuck⟩ := h
    exact ⟨fails, n + k, pos, start, read, sent, by rw [run_add, ran, stuck]⟩

theorem Follows.mono {m : Scanner} {bound bound' : Nat} {scan : Scan} (h : Follows s m bound scan)
    (le : bound ≤ bound') : Follows s m bound' scan := by
  unfold Follows at h ⊢
  cases stop : scan.stop with
  | last last after =>
    rw [stop] at h
    obtain ⟨n, within, stopped⟩ := h
    exact ⟨n, by omega, stopped⟩
  | never => rwa [stop] at h

theorem follows_open_comment {value : List Char} {bound : Nat} (failed : s.ending = .failure)
    (line : '\n' ∉ value) (free : Source.endMark ∉ value) :
    Follows s ⟨'/' :: '/' :: value ++ s.behind, p, q, .idle, sent⟩ bound ⟨[], .never⟩ := by
  obtain ⟨none, fails⟩ := Source.of_failure failed
  refine ⟨fails, 2 + value.length, p.after ('/' :: '/' :: value), p, value, sent, ?_⟩
  rw [List.cons_append, List.cons_append, run_add, run_opening,
    run_reading (takes_comment line free), none]
  rfl

/-- The machine does what the scan says. -/
theorem follows_of_reads {cs : List Char} {scan : Scan} (reads : scan.Reads s p cs)
    (free : Source.endMark ∉ cs) :
    Follows s ⟨cs ++ s.behind, p, q, .idle, sent⟩ (3 * cs.length + 2) scan := by
  induction reads generalizing q sent with
  | @finish p =>
    obtain ⟨last, after, rest, finish, stopped⟩ := run_finish p q sent
    rw [finish]
    exact ⟨2, by omega, rest, p, by rw [List.nil_append, stopped, List.append_nil]⟩
  | @blank p c cs scan space _ ih =>
    have later := ih p sent fun there => free (List.mem_cons_of_mem c there)
    have ran : run s 1 ⟨c :: cs ++ s.behind, p, q, .idle, sent⟩ =
        ⟨cs ++ s.behind, p.next c, p, .idle, sent⟩ := step_space space _ p q sent
    refine (later.of_run ran (List.append_nil _).symm).mono ?_
    rw [List.length_cons]
    omega
  | @token p kind value rest scan munched closes _ ih =>
    rw [List.mem_append, not_or] at free
    obtain ⟨n, le, ran⟩ := run_munched p q sent munched free.1 closes
    rw [List.append_assoc, List.length_append]
    exact ((ih p _ free.2).of_run ran rfl).mono (by omega)
  | opens failed line =>
    exact follows_open_comment _ q sent failed line fun there => free (by simp [there])
  | @broken p c cs lexeme rest message unreadable read =>
    obtain ⟨n, le, message', lexeme', rest, rest', read', stopped⟩ :=
      run_unreadable (s := s) p q sent unreadable free
    cases read.symm.trans read'
    exact ⟨n, by omega, rest', p, by rw [stopped, List.append_nil]⟩

end Scanner

namespace Source

variable {s : Source}

/-- Reading fails in a comment. -/
def FailsInComment (s : Source) : Prop :=
  s.fails = true ∧ endMark ∉ s.chars ∧ EndsInComment s.chars

theorem never_iff_failsInComment : s.scan.stop = .never ↔ s.FailsInComment := by
  rw [scan, Scan.stop_eq_never_iff]
  constructor
  · rintro ⟨failed, inside⟩
    obtain ⟨none, fails⟩ := of_failure failed
    have free := behind_eq_nil_iff.1 none
    exact ⟨fails, free, body_eq_chars free ▸ inside⟩
  · rintro ⟨fails, free, inside⟩
    rw [body_eq_chars free, ending, if_neg free, if_pos fails]
    exact ⟨rfl, inside⟩

theorem follows_scan (s : Source) :
    Scanner.Follows s { rest := s.chars } (3 * s.body.length + 2) s.scan := by
  have follows := Scanner.follows_of_reads {} {} [] (Scan.scanFrom_reads s {} s.body)
    s.endMark_not_mem_body
  rwa [body_append_behind] at follows

end Source

namespace Scanner

/-- A scanner that has stopped with one last token behind the ordinary ones: whatever is requested
then is the end, and collecting the tokens gives the ordinary ones, or the error. -/
structure Delivered (s : Source) (m : Scanner) (tokens : List Token) (last : Token) : Prop where
  stopped : m.state = .stopped
  sent : m.sent = tokens ++ [last]
  ordinary : ∀ t ∈ tokens, t.isOrdinary = true
  final : last.kind = .eof ∨ last.kind = .error
  afterwards : ∀ i, m.sent.length ≤ i → (m.get s i).kind = .eof
  success : last.kind = .eof → collect m.sent = .ok tokens
  failure : last.kind = .error →
    collect m.sent = .error s!"{Loc.describe last.loc}: {last.text}"

variable {s : Source}

theorem run_stopped (n : Nat) (rest : List Char) (p q : Pos) (sent : List Token) :
    run s n ⟨rest, p, q, .stopped, sent⟩ = ⟨rest, p, q, .stopped, sent⟩ := by
  induction n with
  | zero => rfl
  | succ n ih => exact ih

/-- Ordinary tokens are collected. -/
theorem collect_append {tokens : List Token} (ordinary : ∀ t ∈ tokens, t.isOrdinary = true)
    (last : Token) : collect (tokens ++ [last]) = (collect [last]).map (tokens ++ ·) := by
  induction tokens with
  | nil => cases h : collect [last] <;> simp [h, Except.map]
  | cons t ts ih =>
    have first := ordinary t List.mem_cons_self
    simp only [Token.isOrdinary, ne_eq, decide_not, Bool.and_eq_true, Bool.not_eq_true',
      decide_eq_false_iff_not] at first
    rw [List.cons_append, collect, if_neg first.2, if_neg first.1,
      ih fun u there => ordinary u (List.mem_cons_of_mem t there)]
    cases collect [last] <;> rfl

theorem delivered {m : Scanner} {tokens : List Token} {last : Token} (stopped : m.state = .stopped)
    (sent : m.sent = tokens ++ [last]) (ordinary : ∀ t ∈ tokens, t.isOrdinary = true)
    (final : last.kind = .eof ∨ last.kind = .error) : m.Delivered s tokens last := by
  refine ⟨stopped, sent, ordinary, final, fun i behind => ?_, fun eof => ?_, fun error => ?_⟩
  · rw [get, List.getElem?_eq_none behind]
    rfl
  · rw [sent, collect_append ordinary, collect, if_pos eof]
    simp [Except.map]
  · rw [sent, collect_append ordinary, collect, if_neg (by simp [error]), if_pos error]
    rfl

end Scanner

namespace Source

/-- Where the scan stops, the scanner does so for good, after at most three steps for a character and
two at the end. It has sent the tokens of the scan, they are collected as it says, and so is what
every later request gives. -/
theorem scanner_follows_scan {s : Source} {last : Token} {after : Pos}
    (stop : s.scan.stop = .last last after) :
    ∃ n ≤ 3 * s.body.length + 2, ∃ m, (∀ k, n ≤ k → Scanner.run s k { rest := s.chars } = m) ∧
      m.Delivered s s.scan.tokens last ∧ Scanner.collect m.sent = s.scan.checked ∧
      ∀ i, m.sent.length ≤ i → some (m.get s i) = s.scan.afterwards s.file := by
  have follows := s.follows_scan
  have ⟨ordinary, final⟩ := (Scan.scanFrom_reads s {} s.body).ordinary
  rw [Scanner.Follows, stop] at follows
  obtain ⟨n, le, rest, start, stopped⟩ := follows
  have delivered : Scanner.Delivered s ⟨rest, after, start, .stopped, s.scan.tokens ++ [last]⟩
      s.scan.tokens last := Scanner.delivered rfl rfl ordinary (final last after stop)
  refine ⟨n, le, _, fun k le => ?_, delivered, ?_, fun i behind => ?_⟩
  · obtain ⟨more, rfl⟩ := Nat.exists_eq_add_of_le le
    rw [Scanner.run_add, stopped, Scanner.run_stopped]
    rfl
  · rw [Scan.checked, stop]
    rcases delivered.final with eof | error
    · exact (delivered.success eof).trans (if_neg (by simp [eof])).symm
    · exact (delivered.failure error).trans (if_pos error).symm
  · rw [Scanner.get, List.getElem?_eq_none behind, Scan.afterwards, stop]
    rfl

/-- The scanner comes to an end for good, and has delivered its tokens then. -/
def Settles (s : Source) : Prop :=
  ∃ n m tokens last, (∀ k, n ≤ k → Scanner.run s k { rest := s.chars } = m) ∧
    m.Delivered s tokens last

/-- A scanner that waits in a comment does so after every number of steps. -/
theorem not_settles {s : Source} (h : s.FailsInComment) : ¬ s.Settles := by
  have follows := s.follows_scan
  rw [Scanner.Follows, never_iff_failsInComment.2 h] at follows
  obtain ⟨fails, n, pos, start, read, sent, stuck⟩ := follows
  rintro ⟨k, m, tokens, last, rests, delivered⟩
  have there := rests (n + k) (by omega)
  rw [Scanner.run_add, stuck, Scanner.run_stuck fails] at there
  have stopped := delivered.stopped
  rw [← there] at stopped
  cases stopped

/-- **The scanner stops exactly if reading does not fail in a comment.** It stops for good, whether
the text ends or reading fails from some place on, and it has sent ordinary tokens and one last
token, the end or an error; it gives the end from then on, and what it sent is collected as the
ordinary tokens, or as the error with its place. -/
theorem scanner_stops_iff (s : Source) : s.Settles ↔ ¬ s.FailsInComment := by
  refine ⟨fun settles fails => not_settles fails settles, fun reads => ?_⟩
  cases stop : s.scan.stop with
  | never => exact absurd (never_iff_failsInComment.1 stop) reads
  | last last after =>
    obtain ⟨n, -, m, rests, delivered, -⟩ := scanner_follows_scan stop
    exact ⟨n, m, s.scan.tokens, last, rests, delivered⟩

/-- Two slashes, and reading fails behind them. -/
theorem scanner_waits_in_comment :
    ¬ (Source.ofBytes "<input>" [0x2F, 0x2F] true).Settles := by
  have text : Text.decode [0x2F, 0x2F] = ['/', '/'] := by decide +kernel
  rw [ofBytes, text]
  exact not_settles ⟨rfl, by decide, .opens nofun⟩

end Source

end LetWhile
