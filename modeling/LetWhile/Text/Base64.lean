namespace LetWhile.Text

/-- The six bits that a letter of the alphabet `A`–`Z`, `a`–`z`, `0`–`9`, `+`, `/` stands for. -/
def sixBits? (c : Char) : Option Nat :=
  if 'A' ≤ c ∧ c ≤ 'Z' then some (c.toNat - 'A'.toNat)
  else if 'a' ≤ c ∧ c ≤ 'z' then some (c.toNat - 'a'.toNat + 26)
  else if '0' ≤ c ∧ c ≤ '9' then some (c.toNat - '0'.toNat + 52)
  else if c = '+' then some 62
  else if c = '/' then some 63
  else none

/-- The bytes of whole groups of four letters. The last group may be filled up with `=`; the bits
that a filled group has beyond its bytes are not looked at. -/
def base64Groups? : List Char → Option (List UInt8)
  | [] => some []
  | [a, b, '=', '='] => do
    let x := (← sixBits? a) * 64 + (← sixBits? b)
    return [UInt8.ofNat (x / 16)]
  | [a, b, c, '='] => do
    let x := ((← sixBits? a) * 64 + (← sixBits? b)) * 64 + (← sixBits? c)
    return [UInt8.ofNat (x / 1024), UInt8.ofNat (x / 4)]
  | a :: b :: c :: d :: rest => do
    let x := (((← sixBits? a) * 64 + (← sixBits? b)) * 64 + (← sixBits? c)) * 64 + (← sixBits? d)
    return UInt8.ofNat (x / 65536) :: UInt8.ofNat (x / 256) :: UInt8.ofNat x ::
      (← base64Groups? rest)
  | _ => none

/-- The bytes that a text in base 64 stands for. Line breaks may stand anywhere in it. -/
def base64? (cs : List Char) : Option (List UInt8) :=
  base64Groups? (cs.filter fun c => c ≠ '\n' ∧ c ≠ '\r')

end LetWhile.Text
