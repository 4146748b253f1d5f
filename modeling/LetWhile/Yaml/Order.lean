import LetWhile.Text.Digit
import LetWhile.Text.Letter

/-! The order in which the keys of a mapping are written. -/
namespace LetWhile.Yaml

/-- The number that the run of digits from the front of a text adds to `start`, in words of 64 bits,
and the length of the run. -/
def digitRun (start : Int64) (length : Nat) : List Char → Int64 × Nat
  | [] => (start, length)
  | c :: cs =>
    if Text.isDigit c then
      digitRun (start * 10 + Int64.ofInt ((c.toNat : Int) - 48)) (length + 1) cs
    else (start, length)

/-- The order of keys. Numbers inside keys count by their value. `before` is the common beginning of
the two keys, its last character first. -/
def keyLess (before : List Char) : List Char → List Char → Bool
  | [], [] => false
  | [], _ :: _ => true
  | _ :: _, [] => false
  | a :: as, b :: bs =>
    if a = b then keyLess (a :: before) as bs
    else
      let inDigits := before.head?.any Text.isDigit
      match Text.isLetter a, Text.isLetter b with
      | true, true => decide (a < b)
      | true, false => inDigits
      | false, true => !inDigits
      | false, false =>
        let nonZeroBefore := (before.takeWhile Text.isDigit).any (· ≠ '0')
        let start := if (a = '0' || b = '0') && nonZeroBefore then 1 else 0
        let (an, al) := digitRun start 0 (a :: as)
        let (bn, bl) := digitRun start 0 (b :: bs)
        if an ≠ bn then decide (an < bn) else if al ≠ bl then decide (al < bl) else decide (a < b)

end LetWhile.Yaml
