import LetWhile.Proofs.Lexeme
import Mathlib.Data.List.Induction

/-!
# Scanning takes the longest tokens

The tokens of a text with the blanks between them are the text again, up to its end or to the first
place where no token starts; every token stands where its location says and could not be longer.
-/

namespace LetWhile

/-- The place behind the characters that a file starts with. -/
def Loc.behind (file : String) (before : List Char) : Loc :=
  ⟨file, 1 + before.count '\n', 1 + (before.reverse.takeWhile (· ≠ '\n')).length⟩

theorem Pos.after_append (p : Pos) (cs ds : List Char) : p.after (cs ++ ds) = (p.after cs).after ds :=
  List.foldl_append

theorem Pos.after_singleton (p : Pos) (c : Char) : p.after [c] = p.next c := rfl

/-- Counting while reading gives the place that looking back gives. -/
theorem Loc.toLoc_after (file : String) (before : List Char) :
    (Pos.after {} before).toLoc file = Loc.behind file before := by
  induction before using List.reverseRecOn with
  | nil => rfl
  | append_singleton cs c ih =>
    have hline : (Pos.after {} cs).line = 1 + cs.count '\n' := congrArg Loc.line ih
    have hcol : (Pos.after {} cs).col = 1 + (cs.reverse.takeWhile (· ≠ '\n')).length :=
      congrArg Loc.col ih
    rw [Pos.after_append, Pos.after_singleton]
    by_cases hc : c = '\n'
    · simp [Pos.next, Pos.toLoc, Loc.behind, hc, hline, Nat.add_assoc]
    · simp [Pos.next, Pos.toLoc, Loc.behind, hc, hline, hcol, List.count_append, Nat.add_assoc]

/-- A token with the blanks before it. -/
structure Piece where
  blanks : List Char
  token : Token

namespace Piece

def chars (p : Piece) : List Char := p.blanks ++ p.token.spelling

/-- Pieces that stand one behind the other between `before` and `rest`. -/
inductive Laid (file : String) : List Char → List Piece → List Char → Prop where
  | nil {before rest : List Char} : Laid file before [] rest
  | cons {before rest : List Char} {p : Piece} {pieces : List Piece}
      (blank : ∀ c ∈ p.blanks, Text.isSpace c = true)
      (place : p.token.loc = some (Loc.behind file (before ++ p.blanks)))
      (munched : Token.Munched p.token.kind p.token.text.toList (pieces.flatMap chars ++ rest))
      (more : Laid file (before ++ p.chars) pieces rest) :
      Laid file before (p :: pieces) rest

theorem Laid.at {file : String} {before rest : List Char} {front back : List Piece} {p : Piece}
    (h : Laid file before (front ++ p :: back) rest) :
    (∀ c ∈ p.blanks, Text.isSpace c = true) ∧
    p.token.loc = some (Loc.behind file (before ++ front.flatMap chars ++ p.blanks)) ∧
    Token.Munched p.token.kind p.token.text.toList (back.flatMap chars ++ rest) := by
  induction front generalizing before with
  | nil =>
    cases h with
    | cons blank place munched _ => exact ⟨blank, by simpa using place, munched⟩
  | cons q front ih =>
    cases h with
    | cons _ _ _ more => simpa [List.append_assoc] using ih more

end Piece

/-- What scanning the text `cs` behind `before` comes to: pieces, then blanks, then a last token, at
the end of the text or at a place where no token starts. -/
def Scan.Accounts (file : String) (before cs : List Char) (scan : Scan) : Prop :=
  ∃ (pieces : List Piece) (blanks rest : List Char) (last : Token) (after : Pos),
    scan = ⟨pieces.map Piece.token, .last last after⟩ ∧
    cs = pieces.flatMap Piece.chars ++ (blanks ++ rest) ∧
    (∀ c ∈ blanks, Text.isSpace c = true) ∧
    Piece.Laid file before pieces (blanks ++ rest) ∧
    last.loc = some (Loc.behind file (before ++ pieces.flatMap Piece.chars ++ blanks)) ∧
    (last.kind = .eof ∧ rest = [] ∨ last.kind = .error ∧ Unreadable rest)

namespace Scan

theorem Accounts.blank {file : String} {before cs : List Char} {scan : Scan} {c : Char}
    (space : Text.isSpace c = true) (h : Accounts file (before ++ [c]) cs scan) :
    Accounts file before (c :: cs) scan := by
  obtain ⟨pieces, blanks, rest, last, after, hscan, hcs, hblanks, hlaid, hloc, hend⟩ := h
  cases hlaid with
  | nil =>
    refine ⟨[], c :: blanks, rest, last, after, hscan, by simpa using hcs, ?_, .nil, ?_, hend⟩
    · rintro x (_ | ⟨_, hx⟩)
      · exact space
      · exact hblanks x hx
    · simpa [List.append_assoc] using hloc
  | @cons _ _ p pieces blank place munched more =>
    -- The blank goes to the first piece, whose token stays where it is.
    have hchars : c :: p.chars = Piece.chars ⟨c :: p.blanks, p.token⟩ := rfl
    refine ⟨⟨c :: p.blanks, p.token⟩ :: pieces, blanks, rest, last, after, hscan, ?_, hblanks,
      .cons ?_ ?_ munched ?_, ?_, hend⟩
    · simp [hcs, ← hchars]
    · rintro x (_ | ⟨_, hx⟩)
      · exact space
      · exact blank x hx
    · simpa [List.append_assoc] using place
    · simpa [← hchars, List.append_assoc] using more
    · simpa [← hchars, List.append_assoc] using hloc

theorem Accounts.token {file : String} {before cs : List Char} {scan : Scan} {t : Token}
    (place : t.loc = some (Loc.behind file before))
    (munched : Token.Munched t.kind t.text.toList cs)
    (h : Accounts file (before ++ t.spelling) cs scan) :
    Accounts file before (t.spelling ++ cs) ⟨t :: scan.tokens, scan.stop⟩ := by
  obtain ⟨pieces, blanks, rest, last, after, rfl, rfl, hblanks, hlaid, hloc, hend⟩ := h
  have hchars : Piece.chars ⟨[], t⟩ = t.spelling := rfl
  refine ⟨⟨[], t⟩ :: pieces, blanks, rest, last, after, rfl, ?_, hblanks,
    .cons ?_ ?_ munched ?_, ?_, hend⟩
  · simp [hchars]
  · simp
  · simpa using place
  · simpa [hchars] using hlaid
  · simpa [hchars, List.append_assoc] using hloc

theorem Accounts.finish {s : Source} (reads : s.ending ≠ .failure) (before : List Char) :
    Accounts s.file before [] (finish s (Pos.after {} before)) := by
  have place := Loc.toLoc_after s.file before
  unfold Scan.finish
  cases he : s.ending with
  | endOfFile => exact ⟨[], [], [], _, _, rfl, rfl, by simp, .nil, by simp [place], .inl ⟨rfl, rfl⟩⟩
  | mark => exact ⟨[], [], [], _, _, rfl, rfl, by simp, .nil, by simp [place], .inl ⟨rfl, rfl⟩⟩
  | failure => exact absurd he reads

theorem Accounts.broken {file : String} {before cs : List Char} {message : String} {after : Pos}
    (h : Unreadable cs) :
    Accounts file before cs ⟨[], .last ⟨.error, message, some (Loc.behind file before)⟩ after⟩ :=
  ⟨[], [], cs, _, after, rfl, rfl, by simp, .nil, by simp, .inr ⟨rfl, h⟩⟩

/-- Scanning accounts for every character from `before` on. -/
theorem scanFrom_accounts {s : Source} (reads : s.ending ≠ .failure) (before cs : List Char) :
    Accounts s.file before cs (scanFrom s (Pos.after {} before) cs) := by
  generalize hn : cs.length = n
  induction n using Nat.strongRecOn generalizing before cs with
  | ind n ih =>
    cases cs with
    | nil =>
      rw [scanFrom]
      exact .finish reads before
    | cons c cs =>
      rw [scanFrom]
      split
      · rename_i space
        rw [← Pos.after_singleton, ← Pos.after_append]
        exact (ih cs.length (by simp [← hn]) (before ++ [c]) cs rfl).blank space
      · rename_i space
        have shorter := Lexeme.length_rest_lt c cs
        rcases Lexeme.read_spec cs (by simpa using space) with
          ⟨kind, value, rest, hread, hsplit, munched⟩ | ⟨message, lexeme, rest, hread, unreadable⟩
        · rw [hread, Lexeme.rest] at shorter
          rw [hread]
          simp only [reads, and_false, if_false]
          rw [hsplit, ← Pos.after_append]
          have hspell : kind.spelling value =
              Token.spelling ⟨kind, String.ofList value, some (Loc.behind s.file before)⟩ := by
            simp [Token.spelling]
          rw [Loc.toLoc_after, hspell]
          exact .token rfl (by simpa using munched) (ih rest.length (by omega) _ rest rfl)
        · rw [hread, Loc.toLoc_after]
          exact .broken unreadable

end Scan

/-- **Scanning takes the longest tokens.** The tokens of a file with the blanks before them, and
the blanks behind the last of them, are the characters it starts with: all up to the first null
character if the last token is the end, and all before a place where no token starts if it is an
error. Every token stands where its location says, and none could be longer. -/
theorem Source.scan_takes_longest_tokens (file : String) (bytes : List UInt8) :
    ∃ (pieces : List Piece) (blanks rest : List Char) (last : Token) (after : Pos),
      (ofBytes file bytes false).scan = ⟨pieces.map Piece.token, .last last after⟩ ∧
      (Text.decode bytes).takeWhile (· ≠ endMark) =
        pieces.flatMap Piece.chars ++ (blanks ++ rest) ∧
      (∀ c ∈ blanks, Text.isSpace c = true) ∧
      (∀ front p back, pieces = front ++ p :: back →
        (∀ c ∈ p.blanks, Text.isSpace c = true) ∧
        p.token.loc = some (Loc.behind file (front.flatMap Piece.chars ++ p.blanks)) ∧
        Token.Munched p.token.kind p.token.text.toList
          (back.flatMap Piece.chars ++ (blanks ++ rest))) ∧
      last.loc = some (Loc.behind file (pieces.flatMap Piece.chars ++ blanks)) ∧
      (last.kind = .eof ∧ rest = [] ∨ last.kind = .error ∧ Unreadable rest) := by
  have reads : (ofBytes file bytes false).ending ≠ .failure := by
    unfold ending
    split <;> simp [ofBytes]
  obtain ⟨pieces, blanks, rest, last, after, hscan, hcs, hblanks, hlaid, hloc, hend⟩ :=
    Scan.scanFrom_accounts reads [] (ofBytes file bytes false).body
  refine ⟨pieces, blanks, rest, last, after, hscan, hcs, hblanks, ?_, hloc, hend⟩
  rintro front p back rfl
  exact hlaid.at

end LetWhile
