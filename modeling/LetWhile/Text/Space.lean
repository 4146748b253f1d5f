import LetWhile.Text.Ranges

namespace LetWhile.Text

/-- Code points with the White_Space property, in increasing order. -/
def spaceRanges : List (Nat × Nat) := [
  (0x9, 0xD), (0x20, 0x20), (0x85, 0x85), (0xA0, 0xA0), (0x1680, 0x1680), (0x2000, 0x200A),
  (0x2028, 0x2029), (0x202F, 0x202F), (0x205F, 0x205F), (0x3000, 0x3000)]

def isSpace (c : Char) : Bool := inRanges spaceRanges c.toNat

/-- A text of white space only, the empty one included. -/
def isBlank (s : String) : Bool := s.toList.all isSpace

end LetWhile.Text
