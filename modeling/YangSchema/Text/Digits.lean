/-!
# Numbers in digits

Reading of numbers written in ASCII digits, with the bounds of machine words: a number outside its
bounds is not a number of that kind.
-/

namespace YangSchema.Text

/-- Whether a character is an ASCII digit. -/
def isDigit (c : Char) : Bool := '0' ≤ c && c ≤ '9'

/-- The value of an ASCII digit. -/
def digitValue (c : Char) : Nat := c.toNat - 48

/-- The value of a list of digits behind digits of value `high`. -/
def digitsValue (high : Nat) (cs : List Char) : Nat :=
  cs.foldl (fun n c => 10 * n + digitValue c) high

/-- The number written by one or more digits. -/
def natOfDigits? (cs : List Char) : Option Nat :=
  if !cs.isEmpty && cs.all isDigit then some (digitsValue 0 cs) else none

/-- The number written by digits behind an optional plus sign, if it is at most `most`. -/
def unsigned? (most : Nat) (s : String) : Option Nat :=
  let digits := match s.toList with
    | '+' :: cs => cs
    | cs => cs
  (natOfDigits? digits).filter (· ≤ most)

/-- The number written by digits behind an optional sign, if it lies from `least` to `most`. -/
def signed? (least most : Int) (s : String) : Option Int :=
  let value := match s.toList with
    | '+' :: cs => (natOfDigits? cs).map Int.ofNat
    | '-' :: cs => (natOfDigits? cs).map fun n => -(n : Int)
    | cs => (natOfDigits? cs).map Int.ofNat
  value.filter fun n => least ≤ n && n ≤ most

/-- The greatest number of a word of `bits` bits without sign. -/
def wordMax (bits : Nat) : Nat := Nat.pow 2 bits - 1

/-- The greatest number of a word of `bits` bits with a sign. -/
def signedMax (bits : Nat) : Nat := wordMax (bits - 1)

/-- The least number of a word of `bits` bits with a sign. -/
def signedMin (bits : Nat) : Int := -(signedMax bits : Int) - 1

/-- The value of a hexadecimal digit of either case. -/
def hexValue? (c : Char) : Option Nat :=
  if '0' ≤ c ∧ c ≤ '9' then some (c.toNat - 48)
  else if 'a' ≤ c ∧ c ≤ 'f' then some (c.toNat - 87)
  else if 'A' ≤ c ∧ c ≤ 'F' then some (c.toNat - 55)
  else none

/-- The number written by hexadecimal digits. -/
def hexNumber? (digits : List Char) : Option Nat :=
  (digits.mapM hexValue?).map fun values => values.foldl (fun n d => n * 16 + d) 0

/-- The character of a code point. -/
def charOfNumber? (n : Nat) : Option Char := if n.isValidChar then some (Char.ofNat n) else none

/-- Digits of a number, with zeros in front up to a least number of digits. -/
def paddedDigits (width n : Nat) : List Char :=
  let digits := Nat.toDigits 10 n
  List.replicate (width - digits.length) '0' ++ digits

end YangSchema.Text
