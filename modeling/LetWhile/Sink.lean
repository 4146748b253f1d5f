namespace LetWhile

/-- An output that takes a number of writes and refuses all later ones; without a number it takes
all. What was written is kept, the latest write first. -/
structure Sink (α : Type) where
  room : Option Nat := none
  written : List α := []

namespace Sink

variable {α : Type}

/-- Whether the write was taken, and the output after it. -/
def write (s : Sink α) (a : α) : Bool × Sink α :=
  match s.room with
  | none => (true, { s with written := a :: s.written })
  | some 0 => (false, s)
  | some (n + 1) => (true, ⟨some n, a :: s.written⟩)

/-- Writes without asking whether it was taken. -/
def offer (s : Sink α) (a : α) : Sink α := (s.write a).2

/-- Writes one after the other until one is refused. -/
def writeAll (s : Sink α) : List α → Bool × Sink α
  | [] => (true, s)
  | a :: rest =>
    match s.write a with
    | (true, s') => s'.writeAll rest
    | (false, s') => (false, s')

/-- What was written, in order. -/
def contents (s : Sink α) : List α := s.written.reverse

def text (s : Sink String) : String := String.join s.contents

end Sink

end LetWhile
