import YangSchema.Binary64

/-!
# Numbers in JSON

A number without point and exponent is an integer if it fits a signed word of 64 bits. Every other
number is a binary one, and so is a zero with a minus.

A binary number is found from as many of the leading digits as fit a word of 64 bits and from a
power of ten. The digits are rounded, then multiplied or divided by the rounded power, and the
result is rounded again. A number that this takes beyond the greatest one is refused.
-/

namespace YangSchema

namespace Binary64

/-- The exact value of a finite number without its sign. -/
def magnitude? : Binary64 → Option Quotient
  | .finite _ m q => some (.scaled m 2 q)
  | _ => none

/-- The nearest binary number to a quotient. -/
def ofQuotient (negative : Bool) (v : Quotient) : Binary64 :=
  if v.numerator = 0 then .finite negative 0 (-1074) else nearest negative v

/-- The greatest power of ten that is not infinite. -/
def greatestPower : Nat := 308

/-- A number times a power of ten, or divided by it for a negative exponent; both are rounded. -/
def timesPower (x : Binary64) (exponent : Int) : Binary64 :=
  match x, (ofDecimal false 1 exponent.natAbs).magnitude? with
  | .finite negative m q, some power =>
    let v := Quotient.scaled m 2 q
    ofQuotient negative
      (if 0 ≤ exponent then v.mul power else v.mul ⟨power.denominator, power.numerator⟩)
  | x, _ => x

/-- A number times any power of ten, one that is not infinite at a time; `none` if it becomes
infinite. Three steps take every number below `2 ^ 64` to zero, if any number of them does. -/
def scaleBy? : (fuel : Nat) → Binary64 → Int → Option Binary64
  | 0, x, _ => some x
  | fuel + 1, x, exponent =>
    if exponent.natAbs ≤ greatestPower then
      match x.timesPower exponent with
      | .infinite _ => none
      | y => some y
    else if x.isZero then some x
    else if 0 ≤ exponent then none
    else scaleBy? fuel (x.timesPower (-greatestPower)) (exponent + greatestPower)

end Binary64

namespace Json

/-- A number of a JSON text. -/
inductive Number where
  | integer (n : Int)
  | real (x : Binary64)
  deriving Repr, DecidableEq

namespace Number

/-- The parts of a written number: its sign, the digits before and behind the point, and the
exponent with its sign, as far as they are there. -/
structure Parts where
  negative : Bool
  whole : List Char
  fraction : List Char
  exponent : Option (Bool × List Char)
  deriving Repr, DecidableEq

/-- Splits a written number. -/
def Parts.ofWritten (cs : List Char) : Parts :=
  let (negative, cs) := match cs with
    | '-' :: cs => (true, cs)
    | cs => (false, cs)
  let (whole, cs) := cs.span Text.isDigit
  let (fraction, cs) := match cs with
    | '.' :: cs => cs.span Text.isDigit
    | cs => ([], cs)
  let exponent := match cs with
    | _ :: '-' :: digits => some (true, digits)
    | _ :: '+' :: digits => some (false, digits)
    | _ :: digits => some (false, digits)
    | [] => none
  ⟨negative, whole, fraction, exponent⟩

/-- Reads digits behind those of value `n` as long as the value fits a word of 64 bits; gives also
how many digits are read and how many are left. -/
def fitDigits (n count : Nat) : List Char → Nat × Nat × Nat
  | [] => (n, count, 0)
  | c :: cs =>
    let longer := 10 * n + Text.digitValue c
    if longer ≤ Text.wordMax 64 then fitDigits longer (count + 1) cs
    else (n, count, cs.length + 1)

/-- The binary number of a number with a sign, leading digits and a power of ten before the written
exponent is regarded. -/
def real? (negative : Bool) (significand : Nat) (power : Int) :
    Option (Bool × List Char) → Option Binary64
  | none => Binary64.scaleBy? 3 (.ofDecimal negative significand 0) power
  | some (isBelow, digits) =>
    let e := Text.digitsValue 0 digits
    if e ≤ Text.signedMax 32 then
      let power := if isBelow then power - e else power + e
      Binary64.scaleBy? 3 (.ofDecimal negative significand 0) power
    else if significand = 0 ∨ isBelow then some (.ofDecimal negative 0 0)
    else none

/-- The number of its parts. -/
def ofParts? (p : Parts) : Option Number :=
  let (n, _, dropped) := fitDigits 0 0 p.whole
  let (m, used, _) := fitDigits n 0 p.fraction
  let value : Int := if p.negative then -(n : Int) else n
  if dropped = 0 ∧ p.fraction.isEmpty ∧ p.exponent.isNone ∧ !(p.negative && n == 0)
      ∧ Text.signedMin 64 ≤ value ∧ value ≤ Text.signedMax 64 then some (.integer value)
  else (real? p.negative m ((dropped : Int) - used) p.exponent).map .real

/-- The number of its written form; `none` if it is too great. -/
def ofWritten? (cs : List Char) : Option Number := ofParts? (.ofWritten cs)

example : ofWritten? "-12".toList = some (.integer (-12)) := by decide +kernel

end Number

end Json

end YangSchema
