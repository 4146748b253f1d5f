import LetWhile.Yaml.Cursor

namespace LetWhile.Yaml

/-- What stands between two words of a scalar. -/
inductive Gap where
  | blanks (cs : List Char)
  /-- Line breaks, of which `more` follow the first; that one is `none` if a backslash hides it. -/
  | breaks (first : Option Char) (more : List Char)

namespace Gap

/-- Blanks stay. One line feed becomes a space, of several the first is dropped. -/
def text : Gap → List Char
  | .blanks cs => cs
  | .breaks (some '\n') [] => [' ']
  | .breaks (some '\n') more => more
  | .breaks first more => first.toList ++ more

def isBroken : Gap → Bool
  | .blanks _ => false
  | .breaks _ _ => true

/-- Reads a gap. `check` is run after the spaces at the front of every line but the first. -/
def scan (check : Scan Unit := pure ()) : Scan Gap := do
  let blanks ← Scan.takeWhile isBlank
  match ← Scan.lineBreak? with
  | none => return .blanks blanks
  | some first => return .breaks (some first) (← Scan.breaks check)

end Gap

end LetWhile.Yaml
