import LetWhile.Yaml.Error

/-!
The characters of a file. A byte order mark tells UTF-16 from UTF-8. The bytes are looked at in
blocks of 512: a flaw spoils the whole block it is in, and nothing that comes before.
-/
namespace LetWhile.Yaml

/-- Some characters, of which `first` are in the first block, and the flaw that follows them, if one
does. -/
structure Source where
  chars : List Char
  first : Nat := chars.length
  flaw : Option Flaw := none

namespace Source

/-- What stands at the front of some bytes. -/
inductive Front where
  | code (n width : Nat)
  /-- A character that more bytes may complete, and what it is without them. -/
  | cut (flaw : Flaw)
  | flawed (flaw : Flaw)

/-- Appends the low six bits of the bytes that continue a sequence. -/
def continued (n : Nat) : List UInt8 → Option Nat
  | [] => some n
  | b :: bs => if b &&& 0xC0 = 0x80 then continued (n * 64 + b.toNat % 64) bs else none

/-- A sequence of `width` bytes for a code of at least `least`, of which `high` are the first bits. -/
def sequence (width least high : Nat) (bs : List UInt8) : Front :=
  if bs.length + 1 < width then .cut .cutSequence
  else match continued high (bs.take (width - 1)) with
    | none => .flawed .trailingByte
    | some n =>
      if n < least then .flawed .overlong
      else if n.isValidChar then .code n width
      else .flawed .noCharacter

def utf8 (b : UInt8) (bs : List UInt8) : Front :=
  if b &&& 0x80 = 0 then .code b.toNat 1
  else if b &&& 0xE0 = 0xC0 then sequence 2 0x80 (b.toNat % 32) bs
  else if b &&& 0xF0 = 0xE0 then sequence 3 0x800 (b.toNat % 16) bs
  else if b &&& 0xF8 = 0xF0 then sequence 4 0x10000 (b.toNat % 8) bs
  else .flawed .leadingByte

def utf16 (bigEndian : Bool) (b : UInt8) (bs : List UInt8) : Front :=
  let unit (x y : UInt8) : Nat :=
    if bigEndian then x.toNat * 256 + y.toNat else y.toNat * 256 + x.toNat
  match bs with
  | [] => .cut .cutUnit
  | b₂ :: rest =>
    let n := unit b b₂
    if 0xDC00 ≤ n ∧ n < 0xE000 then .flawed .lowFirst
    else if 0xD800 ≤ n ∧ n < 0xDC00 then
      match rest with
      | b₃ :: b₄ :: _ =>
        let m := unit b₃ b₄
        if 0xDC00 ≤ m ∧ m < 0xE000 then .code (0x10000 + (n - 0xD800) * 1024 + (m - 0xDC00)) 4
        else .flawed .lowMissing
      | _ => .cut .cutPair
    else .code n 2

/-- A character that a text may hold: no control but the tab and the line breaks. -/
def isAllowed (n : Nat) : Bool :=
  n = 0x09 || n = 0x0A || n = 0x0D || (0x20 ≤ n && n ≤ 0x7E) || n = 0x85 ||
  (0xA0 ≤ n && n ≤ 0xD7FF) || (0xE000 ≤ n && n ≤ 0xFFFD) || 0x10000 ≤ n

abbrev Decoder := UInt8 → List UInt8 → Front

/-- The characters of a block, and the bytes at its end that make none yet. -/
def block (front : Decoder) : List UInt8 → Except Flaw (List Char × Option (List UInt8 × Flaw))
  | [] => .ok ([], none)
  | b :: bs =>
    match front b bs with
    | .flawed flaw => .error flaw
    | .cut flaw => .ok ([], some (b :: bs, flaw))
    | .code n width =>
      if isAllowed n then do
        let (cs, cut) ← block front (bs.drop (width - 1))
        return (Char.ofNat n :: cs, cut)
      else .error .control
termination_by bytes => bytes.length
decreasing_by simp only [List.length_cons, List.length_drop]; omega

/-- Decodes some bytes block by block. `cut` is left over from the block before, and `room` is what
the next block has left for new bytes. -/
def blocks (front : Decoder) (room : Nat) (cut : Option (List UInt8 × Flaw)) (bytes : List UInt8) :
    Source :=
  match bytes with
  | [] => { chars := [], flaw := cut.map (·.2) }
  | b :: bs =>
    let old := (cut.map (·.1)).getD []
    match block front (old ++ b :: bs.take (room - 1)) with
    | .error flaw => { chars := [], flaw := some flaw }
    | .ok (cs, cut) =>
      let later := blocks front (512 - ((cut.map (·.1)).getD []).length) cut (bs.drop (room - 1))
      { chars := cs ++ later.chars, first := cs.length, flaw := later.flaw }
termination_by bytes.length
decreasing_by simp only [List.length_cons, List.length_drop]; omega

/-- The text of a file. An empty file is read as an empty line. -/
def ofBytes : List UInt8 → Source
  | [] => { chars := ['\n'] }
  | 0xFF :: 0xFE :: bytes => blocks (utf16 false) 510 none bytes
  | 0xFE :: 0xFF :: bytes => blocks (utf16 true) 510 none bytes
  | 0xEF :: 0xBB :: 0xBF :: bytes => blocks utf8 509 none bytes
  | bytes => blocks utf8 512 none bytes

end Source

end LetWhile.Yaml
