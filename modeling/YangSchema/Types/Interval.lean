import YangSchema.Text.Digits
import YangSchema.Text.Blank
import YangSchema.Text.Split

/-!
# Intervals of integers

A range or length restriction is a list of closed intervals, each above the one before it, written
like `1..5 | 7 | 10..max`. The words `min` and `max` stand for the least and the greatest number of
the list that is restricted. The bounds of a decimal type are written with a point and kept as
integers, scaled by a power of ten.

All numbers lie within the bounds of words of 128 bits.
-/

namespace YangSchema

/-- A closed interval. -/
structure Interval where
  min : Int
  max : Int
  deriving Repr, DecidableEq, Inhabited

namespace Interval

/-- Whether a number lies in an interval. -/
def contains (i : Interval) (n : Int) : Bool := i.min ≤ n && n ≤ i.max

/-- The written form: one number, or two with `..` between them. -/
def text (i : Interval) : String :=
  if i.min = i.max then toString i.min else toString i.min ++ ".." ++ toString i.max

instance : ToString Interval := ⟨text⟩

/-- The least number that can be a bound. -/
def leastBound : Int := Text.signedMin 128

/-- The greatest number that can be a bound. -/
def greatestBound : Int := Text.signedMax 128

/-! ## Bounds -/

/-- The number written by digits with an optional point and at most `places` digits behind it,
times the power of ten with exponent `places`. -/
def scaledMagnitude? (places : Nat) (cs : List Char) : Option Nat :=
  let (whole, fraction) := (Text.cutChars? '.' cs).getD (cs, [])
  if fraction.length ≤ places && fraction.all Text.isDigit then
    (Text.natOfDigits? whole).map fun n =>
      Text.digitsValue n (fraction ++ List.replicate (places - fraction.length) '0')
  else none

/-- Reads a bound, which may have blanks around it: an integer without `scale`, else a decimal
number, which is multiplied by the power of ten with exponent `scale`. -/
def boundOfString? (text : String) (scale : Option Nat) : Option Int :=
  match scale with
  | none => Text.signed? leastBound greatestBound (Text.trim text)
  | some places =>
    let value := match (Text.trim text).toList with
      | '-' :: cs => (scaledMagnitude? places cs).map fun n => -(n : Int)
      | '+' :: cs => (scaledMagnitude? places cs).map Int.ofNat
      | cs => (scaledMagnitude? places cs).map Int.ofNat
    value.filter fun n => -greatestBound ≤ n && n ≤ greatestBound

/-! ## Lists of intervals -/

/-- Cuts at the first two points in a row. -/
def cutAtDots? : List Char → Option (List Char × List Char)
  | [] => none
  | '.' :: '.' :: cs => some ([], cs)
  | c :: cs => (cutAtDots? cs).map fun p => (c :: p.1, p.2)

/-- Reads one bound of a restriction of numbers from `low` to `high`. -/
def restrictedBound? (low high : Int) (scale : Option Nat) (text : String) : Option Int :=
  let word := Text.trim text
  if word = "min" then some low
  else if word = "max" then some high
  else boundOfString? word scale

/-- Reads one interval of a restriction of numbers from `low` to `high`. -/
def ofString? (low high : Int) (scale : Option Nat) (text : String) : Option Interval :=
  match cutAtDots? text.toList with
  | some (lo, hi) =>
    match restrictedBound? low high scale (String.ofList lo),
      restrictedBound? low high scale (String.ofList hi) with
    | some min, some max => some ⟨min, max⟩
    | _, _ => none
  | none => (restrictedBound? low high scale text).map fun n => ⟨n, n⟩

/-- Whether the intervals are not empty and each lies above the one before it. -/
def ascending : List Interval → Bool
  | [] => true
  | [i] => i.min ≤ i.max
  | i :: j :: rest => i.min ≤ i.max && i.max < j.min && ascending (j :: rest)

/-- Reads a restriction of the numbers in `parent`; its intervals must ascend. -/
def listOfString? (text : String) (parent : List Interval) (scale : Option Nat) :
    Option (List Interval) :=
  match parent.head?, parent.getLast? with
  | some first, some last =>
    ((Text.splitAll '|' text).mapM (ofString? first.min last.max scale)).filter ascending
  | _, _ => none

/-- Whether every interval of `child` lies in one interval of `parent`. -/
def isSubset (child parent : List Interval) : Bool :=
  child.all fun c => parent.any fun p => p.min ≤ c.min && c.max ≤ p.max

/-- Whether a number lies in one of the intervals. -/
def anyContains (is : List Interval) (n : Int) : Bool := is.any (·.contains n)

/-- The written form of a list of intervals. -/
def listText (is : List Interval) : String := " | ".intercalate (is.map text)

end Interval

end YangSchema
