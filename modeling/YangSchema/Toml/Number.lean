import YangSchema.Binary64
import YangSchema.Settings.Value
import YangSchema.Toml.Moment

/-!
# Values without quotes in TOML

A value without quotes is a switch, a moment or a number. Digits of a number can be set apart by
single underscores; a whole number has no zero in front unless it is written in hexadecimal, octal
or binary digits behind `0x`, `0o` or `0b`.
-/

namespace YangSchema.Toml

/-- The digits of a number without the underscores between them. -/
def digits? (isDigit : Char → Bool) : List Char → Option (List Char)
  | [] => none
  | [c] => if isDigit c then some [c] else none
  | c :: '_' :: rest =>
    if isDigit c then (digits? isDigit rest).map (c :: ·) else none
  | c :: d :: rest => if isDigit c then (digits? isDigit (d :: rest)).map (c :: ·) else none

/-- The digits of a whole number in front of a point or an exponent. -/
def wholeDigits? (cs : List Char) : Option (List Char) :=
  (digits? Text.isDigit cs).filter fun ds => ds.length = 1 || ds.head? != some '0'

/-- Whether a character is a digit in a base up to 16. -/
def isBaseDigit (base : Nat) (c : Char) : Bool := (Text.hexValue? c).any (· < base)

/-- The number of a list of digits in a base. -/
def inBase? (base : Nat) (cs : List Char) : Option Nat :=
  (digits? (isBaseDigit base) cs).map fun ds =>
    ds.foldl (fun n c => n * base + (Text.hexValue? c).getD 0) 0

/-- Splits off a sign; says whether it is a minus. -/
def splitSign : List Char → Bool × List Char
  | '-' :: cs => (true, cs)
  | '+' :: cs => (false, cs)
  | cs => (false, cs)

/-- Reads an integer of any size. -/
def wholeNumber? : List Char → Option Int
  | '0' :: 'x' :: cs => (inBase? 16 cs).map Int.ofNat
  | '0' :: 'o' :: cs => (inBase? 8 cs).map Int.ofNat
  | '0' :: 'b' :: cs => (inBase? 2 cs).map Int.ofNat
  | cs =>
    let (negative, cs) := splitSign cs
    (wholeDigits? cs).map fun ds =>
      let n : Int := Text.digitsValue 0 ds
      if negative then -n else n

/-- Reads an integer of 64 bits. -/
def integer? (cs : List Char) : Option Int :=
  (wholeNumber? cs).filter fun n => Text.signedMin 64 ≤ n && n ≤ Text.signedMax 64

/-- The value of a signed exponent. -/
def exponent? (cs : List Char) : Option Int :=
  let (negative, cs) := splitSign cs
  (digits? Text.isDigit cs).map fun ds =>
    let n : Int := Text.digitsValue 0 ds
    if negative then -n else n

/-- Whether a character begins an exponent. -/
def isExponentMark (c : Char) : Bool := c == 'e' || c == 'E'

/-- The digits behind a point and the exponent of a number; one of them must be there. -/
def fractionAndExponent? (cs : List Char) : Option (List Char × Int) :=
  let (front, back) := cs.span fun c => !isExponentMark c
  let fraction := match front with
    | [] => some []
    | '.' :: ds => digits? Text.isDigit ds
    | _ => none
  let exponent := match back with
    | [] => some 0
    | _ :: e => exponent? e
  match fraction, exponent with
  | some fraction, some exponent => if cs.isEmpty then none else some (fraction, exponent)
  | _, _ => none

/-- Reads the digits of a number with a point or an exponent. -/
def decimal? (negative : Bool) (cs : List Char) : Option Binary64 := do
  let (front, back) := cs.span fun c => c != '.' && !isExponentMark c
  let whole ← wholeDigits? front
  let (fraction, exponent) ← fractionAndExponent? back
  let n := Text.digitsValue 0 (whole ++ fraction)
  return Binary64.ofDecimal negative n (exponent - fraction.length)

/-- Reads a number with a point or an exponent, or a word for what is not finite. A number that is
too great is refused, one that is too small to be finite is not. -/
def real? (cs : List Char) : Option Binary64 :=
  let (negative, cs) := splitSign cs
  if cs = ['i', 'n', 'f'] then some (.infinite negative)
  else if cs = ['n', 'a', 'n'] then some .nan
  else (decimal? negative cs).filter (· != .infinite false)

/-- Reads a value without quotes. -/
def plainValue? (cs : List Char) : Option SettingValue :=
  if cs = "true".toList then some (.bool true)
  else if cs = "false".toList then some (.bool false)
  else
    match moment? documentBounds cs, integer? cs, real? cs with
    | some m, _, _ => some (.moment (String.ofList m))
    | none, some n, _ => some (.integer n)
    | none, none, some x => some (.real x)
    | none, none, none => none

end YangSchema.Toml
