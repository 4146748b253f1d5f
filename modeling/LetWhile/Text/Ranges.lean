namespace LetWhile.Text

/-- Membership in a list of closed ranges given in increasing order; the search ends at the first
range that starts beyond `n`. -/
def inRanges : List (Nat × Nat) → Nat → Bool
  | [], _ => false
  | (lo, hi) :: rest, n => if n < lo then false else if n ≤ hi then true else inRanges rest n

end LetWhile.Text
