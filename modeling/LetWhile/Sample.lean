namespace LetWhile.Sample

/-- A program that counts `x` up to `n` in a loop. -/
def counter (n : Int) : String := s!"let x = 0;\nwhile (x < {n}) \x7b\n  x = x + 1;\n\x7d\n"

end LetWhile.Sample
