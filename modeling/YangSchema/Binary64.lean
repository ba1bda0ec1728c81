import YangSchema.Text.Digits
import YangSchema.Text.Split

/-!
# Binary numbers of 64 bits

A finite number is `m * 2 ^ q` with `m` below `2 ^ 53` and `q` from -1074 to 971, with a sign that
zero has too. A decimal number is rounded to the nearest of them, of two equally near ones to that
with an even `m`; what lies half a step or more above the greatest becomes infinite.

A number is written in decimal digits without an exponent: by the fewest digits from which it can be
read back, and of several such numbers by the nearest.
-/

namespace YangSchema

/-- A binary number of 64 bits. -/
inductive Binary64 where
  | finite (negative : Bool) (m : Nat) (q : Int)
  | infinite (negative : Bool)
  | nan
  deriving Repr, DecidableEq, Inhabited

namespace Binary64

/-! ## Exact quotients -/

/-- A number of the form `numerator / denominator`. -/
structure Quotient where
  numerator : Nat
  denominator : Nat

namespace Quotient

/-- A number times a power of a base. -/
def scaled (n base : Nat) (exponent : Int) : Quotient :=
  ⟨n * base.pow exponent.toNat, base.pow (-exponent).toNat⟩

/-- The product of two quotients. -/
def mul (a b : Quotient) : Quotient := ⟨a.numerator * b.numerator, a.denominator * b.denominator⟩

/-- Whether one quotient is at most another. -/
def le (a b : Quotient) : Bool := a.numerator * b.denominator ≤ b.numerator * a.denominator

/-- Whether one quotient is below another. -/
def lt (a b : Quotient) : Bool := !b.le a

/-- The distance of two quotients. -/
def distance (a b : Quotient) : Quotient :=
  let x := a.numerator * b.denominator
  let y := b.numerator * a.denominator
  ⟨(x - y) + (y - x), a.denominator * b.denominator⟩

/-- The integer part. -/
def floor (a : Quotient) : Nat := a.numerator / a.denominator

/-- The nearest integer, of two equally near ones the even one. -/
def round (a : Quotient) : Nat :=
  let n := a.floor
  let twice := 2 * (a.numerator % a.denominator)
  if twice < a.denominator then n
  else if twice = a.denominator then n + n % 2
  else n + 1

end Quotient

/-! ## Rounding -/

/-- The exponent of the unit in which a positive number has 53 bits, or the least exponent. -/
def unitExponent (v : Quotient) : Int :=
  let b : Int := (Nat.log2 v.numerator : Int) - Nat.log2 v.denominator
  let wide := (v.mul (.scaled 1 2 (53 - b))).floor
  max (-1074) (if wide < Nat.pow 2 53 then b - 53 else b - 52)

/-- The nearest binary number to a positive number. -/
def nearest (negative : Bool) (v : Quotient) : Binary64 :=
  let q := unitExponent v
  let m := (v.mul (.scaled 1 2 (-q))).round
  let (m, q) := if m = Nat.pow 2 53 then (Nat.pow 2 52, q + 1) else (m, q)
  if 971 < q then .infinite negative else .finite negative m q

/-- The nearest binary number to `n` times a power of ten. -/
def ofDecimal (negative : Bool) (n : Nat) (exponent : Int) : Binary64 :=
  let magnitude := (Nat.toDigits 10 n).length + exponent
  if n = 0 ∨ magnitude < -400 then .finite negative 0 (-1074)
  else if 400 < magnitude then .infinite negative
  else nearest negative (.scaled n 10 exponent)

/-- Whether a number is zero. -/
def isZero : Binary64 → Bool
  | .finite _ m _ => m = 0
  | _ => false

/-! ## Reading -/

/-- Takes the digits in front. -/
def spanDigits (cs : List Char) : List Char × List Char := cs.span Text.isDigit

/-- The exponent of a number: nothing, or `e` with a signed number. -/
def exponentOf? : List Char → Option Int
  | [] => some 0
  | c :: cs =>
    if c = 'e' ∨ c = 'E' then
      match cs with
      | '-' :: ds => (Text.natOfDigits? ds).map fun n => -(n : Int)
      | '+' :: ds => (Text.natOfDigits? ds).map Int.ofNat
      | ds => (Text.natOfDigits? ds).map Int.ofNat
    else none

/-- Reads digits with an optional point, of which at least one digit must be there, and an optional
exponent. -/
def ofDigits? (negative : Bool) (cs : List Char) : Option Binary64 :=
  let (whole, rest) := spanDigits cs
  let (fraction, rest) := match rest with
    | '.' :: ds => spanDigits ds
    | _ => ([], rest)
  if whole.isEmpty && fraction.isEmpty then none
  else (exponentOf? rest).map fun e =>
    ofDecimal negative (Text.digitsValue 0 (whole ++ fraction)) (e - fraction.length)

/-- Reads a number behind its sign: digits, or a word for what is not finite. -/
def ofMagnitude? (negative : Bool) (cs : List Char) : Option Binary64 :=
  let word := String.ofList (cs.map Char.toLower)
  if word = "inf" ∨ word = "infinity" then some (.infinite negative)
  else if word = "nan" then some .nan
  else ofDigits? negative cs

/-- Reads a number with an optional sign. -/
def ofString? (s : String) : Option Binary64 :=
  match s.toList with
  | '-' :: cs => ofMagnitude? true cs
  | '+' :: cs => ofMagnitude? false cs
  | cs => ofMagnitude? false cs

/-! ## Writing -/

/-- How many zeros stand between the point and the first other digit of a positive number below
one. -/
def zerosBehindPoint (v : Quotient) : Nat :=
  ((List.range 400).find? fun j => 0 < (v.mul (.scaled 1 10 (j + 1 : Nat))).floor).getD 0

/-- How many digits a positive number has before the point; less than one if zeros follow it. -/
def pointPlace (v : Quotient) : Int :=
  if v.floor = 0 then -(zerosBehindPoint v : Int) else (Nat.toDigits 10 v.floor).length

/-- Whether a number is read back as `m * 2 ^ q`. -/
def readsBack (m : Nat) (q : Int) (v : Quotient) : Bool :=
  let below := if m = Nat.pow 2 52 ∧ -1074 < q then 4 * m - 1 else 4 * m - 2
  let low := Quotient.scaled below 2 (q - 2)
  let high := Quotient.scaled (4 * m + 2) 2 (q - 2)
  if m % 2 = 0 then low.le v && v.le high else low.lt v && v.lt high

/-- The number of at most `count` digits that is nearest to `m * 2 ^ q` among those that are read
back as it, with the exponent of its unit; of two equally near ones the greater. -/
def candidate? (m : Nat) (q : Int) (count : Nat) : Option (Nat × Int) :=
  let v := Quotient.scaled m 2 q
  let exponent := pointPlace v - count
  let below := (v.mul (.scaled 1 10 (-exponent))).floor
  let number := fun n => Quotient.scaled n 10 exponent
  let fits := [below, below + 1].filter fun n => readsBack m q (number n)
  match fits with
  | [] => none
  | [n] => some (n, exponent)
  | n :: n' :: _ =>
    if (v.distance (number n)).lt (v.distance (number n')) then some (n, exponent)
    else some (n', exponent)

/-- The fewest digits from which a positive number is read back, with the exponent of their unit. -/
def shortest (m : Nat) (q : Int) : Nat × Int :=
  ((List.range 17).findSome? fun i => candidate? m q (i + 1)).getD (m, q)

/-- Writes a number times a power of ten without an exponent. -/
def positional (n : Nat) (exponent : Int) : List Char :=
  let digits := Nat.toDigits 10 n
  let places := (-exponent).toNat
  if 0 ≤ exponent then digits ++ List.replicate exponent.toNat '0'
  else
    let padded := List.replicate (places + 1 - digits.length) '0' ++ digits
    padded.take (padded.length - places) ++ '.' :: padded.drop (padded.length - places)

/-- Takes zeros behind the last other digit out of a number and counts them in its exponent. -/
def dropZeros : (fuel : Nat) → Nat → Int → Nat × Int
  | 0, n, e => (n, e)
  | fuel + 1, n, e => if n ≠ 0 ∧ n % 10 = 0 then dropZeros fuel (n / 10) (e + 1) else (n, e)

/-- The written form. -/
def text : Binary64 → String
  | .nan => "NaN"
  | .infinite negative => if negative then "-inf" else "inf"
  | .finite negative m q =>
    let (n, e) := if m = 0 then (0, 0) else shortest m q
    let (n, e) := dropZeros 20 n e
    String.ofList ((if negative then ['-'] else []) ++ positional n e)

end Binary64

end YangSchema
