/-! What can be wrong with a YAML text, and how it is told. -/
namespace LetWhile.Yaml

/-- A place in a text, counted from zero. -/
structure Mark where
  index : Nat := 0
  line : Nat := 0
  column : Nat := 0
  deriving DecidableEq, Repr

/-- Bytes that are no text. -/
inductive Flaw where
  | leadingByte | trailingByte | cutSequence | overlong | noCharacter
  | cutUnit | cutPair | lowFirst | lowMissing
  | control
  deriving DecidableEq, Repr

def Flaw.text : Flaw → String
  | .leadingByte => "invalid leading UTF-8 octet"
  | .trailingByte => "invalid trailing UTF-8 octet"
  | .cutSequence => "incomplete UTF-8 octet sequence"
  | .overlong => "invalid length of a UTF-8 sequence"
  | .noCharacter => "invalid Unicode character"
  | .cutUnit => "incomplete UTF-16 character"
  | .cutPair => "incomplete UTF-16 surrogate pair"
  | .lowFirst => "unexpected low surrogate area"
  | .lowMissing => "expected low surrogate area"
  | .control => "control characters are not allowed"

/-- Characters that make no token, or tokens that make no document. -/
inductive Problem where
  | cannotStart | tooDeep | noColon | entryHere | keyHere | valueHere
  | directiveName | directiveNameEnd | directiveUnknown | versionLong | versionMissing | versionDot
  | tagBlank | tagMark | tagUri | tagOctet | tagLead | tagTrail | tagClose | tagEnd
  | anchorName
  | lineEnd | indentZero | indentTab | plainTab
  | quoteDocument | quoteEnd | escape | escapeHex | escapeCode
  | versionTwice | versionOther | handleTwice | handleUnknown | documentStart
  | content | entry | key | sequenceComma | mappingComma
  deriving DecidableEq, Repr

def Problem.text : Problem → String
  | .cannotStart => "found character that cannot start any token"
  | .tooDeep => "exceeded max depth of 10000"
  | .noColon => "could not find expected ':'"
  | .entryHere => "block sequence entries are not allowed in this context"
  | .keyHere => "mapping keys are not allowed in this context"
  | .valueHere => "mapping values are not allowed in this context"
  | .directiveName => "could not find expected directive name"
  | .directiveNameEnd => "found unexpected non-alphabetical character"
  | .directiveUnknown => "found unknown directive name"
  | .versionLong => "found extremely long version number"
  | .versionMissing => "did not find expected version number"
  | .versionDot => "did not find expected digit or '.' character"
  | .tagBlank => "did not find expected whitespace"
  | .tagMark => "did not find expected '!'"
  | .tagUri => "did not find expected tag URI"
  | .tagOctet => "did not find URI escaped octet"
  | .tagLead => "found an incorrect leading UTF-8 octet"
  | .tagTrail => "found an incorrect trailing UTF-8 octet"
  | .tagClose => "did not find the expected '>'"
  | .tagEnd => "did not find expected whitespace or line break"
  | .anchorName => "did not find expected alphabetic or numeric character"
  | .lineEnd => "did not find expected comment or line break"
  | .indentZero => "found an indentation indicator equal to 0"
  | .indentTab => "found a tab character where an indentation space is expected"
  | .plainTab => "found a tab character that violates indentation"
  | .quoteDocument => "found unexpected document indicator"
  | .quoteEnd => "found unexpected end of stream"
  | .escape => "found unknown escape character"
  | .escapeHex => "did not find expected hexdecimal number"
  | .escapeCode => "found invalid Unicode character escape code"
  | .versionTwice => "found duplicate %YAML directive"
  | .versionOther => "found incompatible YAML document"
  | .handleTwice => "found duplicate %TAG directive"
  | .handleUnknown => "found undefined tag handle"
  | .documentStart => "did not find expected <document start>"
  | .content => "did not find expected node content"
  | .entry => "did not find expected '-' indicator"
  | .key => "did not find expected key"
  | .sequenceComma => "did not find expected ',' or ']'"
  | .mappingComma => "did not find expected ',' or '\x7d'"

inductive Error where
  | unreadable (flaw : Flaw)
  /-- The text is no YAML; the line is shown unless it is zero. -/
  | broken (line : Nat) (problem : Problem)
  | unknownAnchor (name : String)
  | cyclicAnchor (name : String)
  | aliases
  | badMerge
  | badBinary
  /-- A scalar that has the form `found` is said to be `tag`. -/
  | badTag (found text tag : String)
  /-- A collection is a key of a table. -/
  | badKey (shown : String)
  /-- A collection is looked up among the keys that are taken. Reading breaks off with it. -/
  | unhashable (kind : String)
  /-- The nodes are not what is asked for. -/
  | unfit (problems : List String)
  deriving DecidableEq, Repr

namespace Error

/-- The first of two places that is not on the first line. -/
def place (first second : Mark) : Mark := if first.line = 0 then second else first

/-- A word that started at `start` and goes wrong at `here` is reported with its line, unless that is
the first line. -/
def word (start here : Mark) (p : Problem) : Error :=
  let line := (place start here).line
  .broken (if line = 0 then 0 else line + 1) p

/-- A token in a wrong place is reported with the number of lines before the part it breaks, or
before itself. -/
def token (start here : Mark) (p : Problem) : Error := .broken (place start here).line p

def text : Error → String
  | .unreadable flaw => flaw.text
  | .broken 0 problem => problem.text
  | .broken line problem => s!"line {line}: {problem.text}"
  | .unknownAnchor name => s!"unknown anchor '{name}' referenced"
  | .cyclicAnchor name => s!"anchor '{name}' value contains itself"
  | .aliases => "document contains excessive aliasing"
  | .badMerge => "map merge requires map or sequence of maps as the value"
  | .badBinary => "!!binary value contains invalid base64 data"
  | .badTag found text tag => s!"cannot decode {found} \x60{text}\x60 as a {tag}"
  | .badKey shown => s!"invalid map key: {shown}"
  | .unhashable kind => s!"hash of unhashable type {kind}"
  | .unfit problems => "unmarshal errors:\n  " ++ "\n  ".intercalate problems

/-- Whether the fault is not one of the text alone: the reader has no rule for what it meets. -/
def isDefect : Error → Bool
  | .unhashable _ => true
  | _ => false

def message (e : Error) : String := if e.isDefect then s!"runtime error: {e.text}" else s!"yaml: {e.text}"

end Error

end LetWhile.Yaml
