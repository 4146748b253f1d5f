/-! Reading bytes as UTF-8. A byte that starts no well-formed sequence stands for one replacement
character, and reading goes on at the next byte. -/
namespace LetWhile.Text

/-- Stands for a byte that belongs to no character, and for a character that cannot be read. -/
def replacement : Char := '\uFFFD'

/-- The low six bits of a continuation byte. -/
def continuation? (b : UInt8) : Option Nat :=
  if 0x80 ≤ b ∧ b < 0xC0 then some (b.toNat - 0x80) else none

/-- The character with code `n`, unless a shorter sequence would encode it or it is none. -/
def scalar? (least n : Nat) : Option Char :=
  if h : n.isValidChar then if least ≤ n then some (Char.ofNatAux n h) else none else none

/-- The character that `b` starts when `bs` follows, and how many bytes of `bs` belong to it. -/
def sequence? (b : UInt8) (bs : List UInt8) : Option (Char × Nat) :=
  if b < 0x80 then some (Char.ofNat b.toNat, 0)
  else if b < 0xC0 then none
  else if b < 0xE0 then do
    let c₁ ← bs[0]? >>= continuation?
    let c ← scalar? 0x80 ((b.toNat - 0xC0) * 64 + c₁)
    return (c, 1)
  else if b < 0xF0 then do
    let c₁ ← bs[0]? >>= continuation?
    let c₂ ← bs[1]? >>= continuation?
    let c ← scalar? 0x800 (((b.toNat - 0xE0) * 64 + c₁) * 64 + c₂)
    return (c, 2)
  else if b < 0xF8 then do
    let c₁ ← bs[0]? >>= continuation?
    let c₂ ← bs[1]? >>= continuation?
    let c₃ ← bs[2]? >>= continuation?
    let c ← scalar? 0x10000 ((((b.toNat - 0xF0) * 64 + c₁) * 64 + c₂) * 64 + c₃)
    return (c, 3)
  else none

def decode : List UInt8 → List Char
  | [] => []
  | b :: bs =>
    match sequence? b bs with
    | some (c, n) => c :: decode (bs.drop n)
    | none => replacement :: decode bs
termination_by bytes => bytes.length
decreasing_by all_goals simp; try omega

end LetWhile.Text
