import LetWhile.Text.Utf8
import LetWhile.Yaml.Cursor
import LetWhile.Yaml.Token

/-! Anchors, aliases, tags and directives. -/
namespace LetWhile.Yaml.Word

/-- The name of an anchor or of an alias, behind its mark. -/
def name : Scan String := do
  let start ← Scan.mark
  Scan.skip 1
  let name ← Scan.takeWhile isNameChar
  let next ← Scan.peek
  let ends := endsWord next || next ∈ ['?', ':', ',', ']', '\x7d', '%', '@', '\x60']
  if name.isEmpty || !ends then Scan.fail start .anchorName
  return String.ofList name

def isUriChar (c : Char) : Bool :=
  isNameChar c || c ∈ [';', '/', '?', ':', '@', '&', '=', '+', '$', ',', '.', '!', '~', '*', '\'',
    '(', ')', '[', ']', '%']

/-- A byte as a percent sign and two hexadecimal digits. -/
def octet (start : Mark) : Scan UInt8 := do
  match ← Scan.peek, hexDigit? (← Scan.peek 1), hexDigit? (← Scan.peek 2) with
  | '%', some high, some low => Scan.skip 3; return UInt8.ofNat (high * 16 + low)
  | _, _, _ => Scan.fail start .tagOctet

/-- How many bytes follow the first one of a character. -/
def trailing? (b : UInt8) : Option Nat :=
  if b &&& 0x80 = 0 then some 0
  else if b &&& 0xE0 = 0xC0 then some 1
  else if b &&& 0xF0 = 0xE0 then some 2
  else if b &&& 0xF8 = 0xF0 then some 3
  else none

/-- A character as the octets of its bytes. -/
def octets (start : Mark) : Scan (List Char) := do
  let lead ← octet start
  match trailing? lead with
  | none => Scan.fail start .tagLead
  | some n =>
    let rest ← (List.replicate n ()).mapM fun _ => do
      let b ← octet start
      if b &&& 0xC0 ≠ 0x80 then Scan.fail start .tagTrail
      return b
    return Text.decode (lead :: rest)

def uriPiece (start : Mark) : Scan (List Char × Bool) := do
  let c ← Scan.peek
  if c = '%' then return (← octets start, true)
  else if isUriChar c then Scan.skip 1; return ([c], true)
  else return ([], false)

/-- The characters of a tag, which may be none if some came before. -/
def uri (start : Mark) (mayBeEmpty : Bool := false) : Scan (List Char) := do
  let here ← Scan.mark
  let text := (← Scan.gather (uriPiece start)).flatten
  if !mayBeEmpty && (← Scan.mark) = here then Scan.fail start .tagUri
  return text

/-- An exclamation mark, a name, and a second exclamation mark if there is one. -/
def handle (start : Mark) : Scan (List Char) := do
  if (← Scan.peek) ≠ '!' then Scan.fail start .tagMark
  Scan.skip 1
  let name ← Scan.takeWhile isNameChar
  if (← Scan.peek) = '!' then
    Scan.skip 1
    return '!' :: name ++ ['!']
  return '!' :: name

def isWholeHandle (cs : List Char) : Bool := 1 < cs.length && cs.getLast? = some '!'

/-- The handle and the suffix of a tag. A tag in full has no handle, and a lone exclamation mark is a
suffix. -/
def tagParts (start : Mark) : Scan (List Char × List Char) := do
  if (← Scan.peek 1) = '<' then
    Scan.skip 2
    let suffix ← uri start
    if (← Scan.peek) ≠ '>' then Scan.fail start .tagClose
    Scan.skip 1
    return ([], suffix)
  let handle ← handle start
  if isWholeHandle handle then return (handle, ← uri start)
  let suffix := handle.drop 1 ++ (← uri start true)
  return if suffix.isEmpty then ([], ['!']) else (['!'], suffix)

def tag : Scan Part := do
  let start ← Scan.mark
  let (handle, suffix) ← tagParts start
  if !endsWord (← Scan.peek) then Scan.fail start .tagEnd
  return .tag (String.ofList handle) (String.ofList suffix)

/-- A number of at most two digits. -/
def versionNumber (start : Mark) : Scan Nat := do
  let digits ← Scan.takeWhile fun c => '0' ≤ c && c ≤ '9'
  if 2 < digits.length then Scan.fail start .versionLong
  if digits.isEmpty then Scan.fail start .versionMissing
  return digits.foldl (fun n c => n * 10 + (c.toNat - '0'.toNat)) 0

def versionDirective (start : Mark) : Scan Part := do
  Scan.skipWhile isBlank
  let major ← versionNumber start
  if (← Scan.peek) ≠ '.' then Scan.fail start .versionDot
  Scan.skip 1
  return .version major (← versionNumber start)

def handleDirective (start : Mark) : Scan Part := do
  Scan.skipWhile isBlank
  let handle ← handle start
  if handle ≠ ['!'] && !isWholeHandle handle then Scan.fail start .tagMark
  if !isBlank (← Scan.peek) then Scan.fail start .tagBlank
  Scan.skipWhile isBlank
  let uri ← uri start
  if !endsWord (← Scan.peek) then Scan.fail start .tagEnd
  return .handle (String.ofList handle) (String.ofList uri)

/-- A line that starts with a percent sign. -/
def directive : Scan Part := do
  let start ← Scan.mark
  Scan.skip 1
  let name ← Scan.takeWhile isNameChar
  if name.isEmpty then Scan.fail start .directiveName
  if !endsWord (← Scan.peek) then Scan.fail start .directiveNameEnd
  let part ← match String.ofList name with
    | "YAML" => versionDirective start
    | "TAG" => handleDirective start
    | _ => Scan.fail start .directiveUnknown
  Scan.skipWhile isBlank
  if (← Scan.peek) = '#' then Scan.comment
  if !endsLine (← Scan.peek) then Scan.fail start .lineEnd
  let _ ← Scan.lineBreak?
  return part

end LetWhile.Yaml.Word
