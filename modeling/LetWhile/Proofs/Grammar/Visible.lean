import LetWhile.Proofs.Grammar.Segments
import Mathlib

/-!
# What the parser sees

The parser sees the tokens up to the first end or error, without the comments. An error among the
tokens is reported once and is read as an end. Main result: `Parsed.sees_only_visible`.
-/

namespace LetWhile

namespace Reader

/-- The tokens up to the first end or error, that one included. -/
def cut : List Token → List Token
  | [] => []
  | t :: ts => if t.isOrdinary then t :: cut ts else [t]

/-- What the parser sees of a stream. -/
def visible (stream : List Token) : List Token := (cut stream).filter fun t => !t.isComment

theorem isComment_of_stops {t : Token} (stops : t.isOrdinary = false) : t.isComment = false := by
  cases comment : t.isComment with
  | false => rfl
  | true => exact (isOrdinary_of_isComment comment).symm.trans stops

theorem cut_of_ordinary {stream : List Token} (ordinary : ∀ t ∈ stream, t.isOrdinary = true) :
    cut stream = stream := by
  induction stream with
  | nil => rfl
  | cons t ts ih =>
    rw [cut, if_pos (ordinary t (.head ts)), ih fun u hu => ordinary u (.tail t hu)]

/-- The first token that is not ordinary is kept, and nothing behind it. -/
theorem cut_append {before behind : List Token} {stop : Token}
    (ordinary : ∀ t ∈ before, t.isOrdinary = true) (stops : stop.isOrdinary = false) :
    cut (before ++ stop :: behind) = before ++ [stop] := by
  induction before with
  | nil => simp [cut, stops]
  | cons t ts ih =>
    rw [List.cons_append, cut, if_pos (ordinary t (.head ts)),
      ih fun u hu => ordinary u (.tail t hu)]
    rfl

theorem visible_of_ordinary {stream : List Token} (ordinary : ∀ t ∈ stream, t.isOrdinary = true) :
    visible stream = stream.filter fun t => !t.isComment := by
  rw [visible, cut_of_ordinary ordinary]

theorem visible_append {before behind : List Token} {stop : Token}
    (ordinary : ∀ t ∈ before, t.isOrdinary = true) (stops : stop.isOrdinary = false) :
    visible (before ++ stop :: behind) = (before.filter fun t => !t.isComment) ++ [stop] := by
  simp [visible, cut_append ordinary stops, isComment_of_stops stops]

theorem pending_of_ordinary {stream : List Token} (ordinary : ∀ t ∈ stream, t.isOrdinary = true) :
    pending stream = stream.filter fun t => !t.isComment := by
  rw [pending, List.takeWhile_eq_self_iff.2 ordinary]

theorem ending_of_ordinary {stream : List Token} (ordinary : ∀ t ∈ stream, t.isOrdinary = true) :
    ending stream = (none, []) := by
  rw [ending, List.dropWhile_eq_nil_iff.2 ordinary]

theorem ordinary_filter {stream : List Token} (ordinary : ∀ t ∈ stream, t.isOrdinary = true) :
    ∀ t ∈ stream.filter fun t => !t.isComment, t.isOrdinary = true :=
  fun t ht => ordinary t (List.mem_filter.1 ht).1

/-- The visible part brings the same tokens to the parser, and the same end. -/
theorem visible_brings (stream : List Token) :
    pending (visible stream) = pending stream ∧ ending (visible stream) = ending stream := by
  rcases ordinary_or_stops stream with ordinary | ⟨before, stop, behind, rfl, ordinary, stops⟩
  · rw [visible_of_ordinary ordinary, pending_of_ordinary ordinary,
      pending_of_ordinary (ordinary_filter ordinary), ending_of_ordinary ordinary,
      ending_of_ordinary (ordinary_filter ordinary)]
    simp
  · rw [visible_append ordinary stops, pending_append ordinary stops,
      pending_append (ordinary_filter ordinary) stops, ending_append ordinary stops,
      ending_append (ordinary_filter ordinary) stops]
    simp

end Reader

namespace Parsed

open Reader

theorem ofTokens_visible (stream : List Token) : ofTokens (visible stream) = ofTokens stream := by
  obtain ⟨tokens, ends⟩ := visible_brings stream
  rw [ofTokens_eq_ofFeed, ofTokens_eq_ofFeed, Feed.ofStream, Feed.ofStream, tokens, ends]

/-- An error among the tokens is reported once. Otherwise the tokens parse as if an end stood in its
place. -/
theorem ofTokens_error {before : List Token} {stop : Token} (behind : List Token)
    (ordinary : ∀ t ∈ before, t.isOrdinary = true) (error : stop.kind = .error) :
    ∃ early late,
      (ofTokens (before ++ stop :: behind)).errors =
        early ++ ⟨stop.loc, .lexical stop.text⟩ :: late ∧
      (∀ e ∈ early ++ late, e.isLexical = false) ∧
      ∀ text, ofTokens (visible before ++ [⟨.eof, text, stop.loc⟩]) =
        ⟨(ofTokens (before ++ stop :: behind)).statements, early ++ late⟩ := by
  have stops : stop.isOrdinary = false := by simp [Token.isOrdinary, error]
  have ends : ending (before ++ stop :: behind) =
      (stop.loc, [⟨stop.loc, .lexical stop.text⟩]) := by
    rw [ending_append ordinary stops, if_pos error]
  obtain ⟨early, late, h, all, -⟩ := ofTokens_report (before ++ stop :: behind)
  rw [ends, List.append_assoc, List.singleton_append] at h
  refine ⟨early, late, by rw [h], ?_, fun text => ?_⟩
  · rw [← all, ← parserErrors_ofTokens, parserErrors]
    intro e he
    simpa using (List.mem_filter.1 he).2
  · -- Both streams bring the same feed, and an end reports nothing.
    have finish : (⟨.eof, text, stop.loc⟩ : Token).isOrdinary = false := rfl
    have ordinary' := ordinary_filter ordinary
    have same : Feed.ofStream (visible before ++ [⟨.eof, text, stop.loc⟩]) =
        .ofStream (before ++ stop :: behind) := by
      simp [Feed.ofStream, visible_of_ordinary ordinary, pending_append ordinary' finish,
        ending_append ordinary' finish, pending_append ordinary stops, ends]
    have silent : (ending (visible before ++ [⟨.eof, text, stop.loc⟩])).2 = [] := by
      simp [visible_of_ordinary ordinary, ending_append ordinary' finish]
    rw [ofTokens_eq_ofFeed, same, silent, statements_ofTokens, ← all]

/-- **The parser sees only the visible tokens.** Comments, and all that is behind the first end or
error, make no difference to the statements or the errors. If that one is an error, it is reported
with its place and text, once, so that there is no program; all the rest is as if an end stood at the
same place. -/
theorem sees_only_visible (stream : List Token) :
    ofTokens stream = ofTokens (visible stream) ∧
    ∀ before stop behind, stream = before ++ stop :: behind →
      (∀ t ∈ before, t.isOrdinary = true) → stop.kind = .error →
      ∃ early late,
        (ofTokens stream).errors = early ++ ⟨stop.loc, .lexical stop.text⟩ :: late ∧
        (∀ e ∈ early ++ late, ∀ message, e.cause ≠ .lexical message) ∧
        (∀ text, ofTokens (visible before ++ [⟨.eof, text, stop.loc⟩]) =
          ⟨(ofTokens stream).statements, early ++ late⟩) ∧
        ∃ errors, (ofTokens stream).program = .error errors := by
  refine ⟨(ofTokens_visible stream).symm, ?_⟩
  rintro before stop behind rfl ordinary error
  obtain ⟨early, late, herrors, syntactic, replaced⟩ := ofTokens_error behind ordinary error
  refine ⟨early, late, herrors, ?_, replaced, (ofTokens (before ++ stop :: behind)).errors, ?_⟩
  · intro e he message lexical
    have := syntactic e he
    simp [SyntaxError.isLexical, lexical] at this
  · simp [program, herrors]

/-- A comment inside the first statement, and an error inside the second: it is read as an end, where
an operand is missing. -/
theorem sees_only_visible_unreadable :
    let before : List Token := [⟨.identifier, "x", none⟩, ⟨.lineComment, " first", none⟩,
      ⟨.semicolon, ";", none⟩, ⟨.minus, "-", none⟩]
    let stop : Token := ⟨.error, "invalid symbol '$'", some ⟨"", 2, 3⟩⟩
    let stream := before ++ stop :: [⟨.semicolon, ";", none⟩]
    (∀ t ∈ before, t.isOrdinary = true) ∧ stop.kind = .error ∧
    (ofTokens (visible stream)).statements = [.eval (.variable "x")] ∧
    ∃ early late,
      (ofTokens (visible stream)).errors = early ++ ⟨stop.loc, .lexical stop.text⟩ :: late ∧
      early ++ late = [⟨stop.loc, .noExpression (.finish stop.loc)⟩] := by
  intro before stop stream
  have ordinary : ∀ t ∈ before, t.isOrdinary = true := by decide
  have ended : ofTokens (visible before ++ [⟨.eof, "", stop.loc⟩]) =
      ⟨[.eval (.variable "x")], [⟨stop.loc, .noExpression (.finish stop.loc)⟩]⟩ := by cbv
  obtain ⟨same, once⟩ := sees_only_visible stream
  obtain ⟨early, late, herrors, -, replaced, -⟩ := once before stop _ rfl ordinary rfl
  have parsed := (replaced "").symm.trans ended
  rw [← same]
  exact ⟨ordinary, rfl, congrArg Parsed.statements parsed, early, late, herrors,
    congrArg Parsed.errors parsed⟩

end Parsed

end LetWhile
