import YangSchema.Text.Digits
import YangSchema.Revision

/-!
# Dates and times in TOML

A moment is a date, a time of day, or both; with both there can be an offset from universal time. It
is given in a normal form: `T` between date and time, `Z` for universal time, at most nine digits of
a fraction of a second and none that is zero at the end.

In a document a moment stands without quotes, within narrower bounds than in a text.
-/

namespace YangSchema.Toml

/-- The greatest numbers that can stand in a moment. -/
structure MomentBounds where
  hour : Nat
  offsetHour : Nat
  offsetMinute : Nat
  deriving Repr, DecidableEq

/-- The bounds of a moment without quotes. -/
def documentBounds : MomentBounds := ⟨23, 23, 59⟩

/-- The bounds of a moment that is the whole of a text. -/
def textBounds : MomentBounds := ⟨24, 99, 99⟩

/-- The most minutes of an offset. -/
def offsetLimit : Nat := 24 * 60

/-- Two digits of a number below 100. -/
def twoDigits (n : Nat) : List Char := Text.paddedDigits 2 n

/-- Reads two digits whose value is at most `most`. -/
def twoDigits? (most : Nat) : List Char → Option (Nat × List Char)
  | a :: b :: rest =>
    let n := Text.digitsValue 0 [a, b]
    if Text.isDigit a && Text.isDigit b && n ≤ most then some (n, rest) else none
  | _ => none

/-- Reads one given character. -/
def expect? (c : Char) : List Char → Option (List Char)
  | x :: rest => if x = c then some rest else none
  | [] => none

/-- Reads a date. -/
def date? (cs : List Char) : Option (List Char × List Char) :=
  if (Revision.ofString? (String.ofList (cs.take 10))).isSome then some (cs.take 10, cs.drop 10)
  else none

/-- The normal form of the digits of a fraction. -/
def fractionText (digits : List Char) : List Char :=
  let kept := ((digits.take 9).reverse.dropWhile (· == '0')).reverse
  if kept.isEmpty then [] else '.' :: kept

/-- Reads a fraction of a second, which can be missing. -/
def fraction? : List Char → Option (List Char × List Char)
  | '.' :: rest =>
    let (digits, rest) := rest.span Text.isDigit
    if digits.isEmpty then none else some (fractionText digits, rest)
  | cs => some ([], cs)

/-- Reads a time of day. -/
def time? (bounds : MomentBounds) (cs : List Char) : Option (List Char × List Char) := do
  let (hour, cs) ← twoDigits? bounds.hour cs
  let (minute, cs) ← twoDigits? 59 (← expect? ':' cs)
  let (second, cs) ← twoDigits? 60 (← expect? ':' cs)
  let (fraction, cs) ← fraction? cs
  return (twoDigits hour ++ ':' :: twoDigits minute ++ ':' :: twoDigits second ++ fraction, cs)

/-- Reads the hours and minutes of an offset; gives all its minutes. -/
def offsetMinutes? (bounds : MomentBounds) (cs : List Char) : Option (Nat × List Char) := do
  let (hour, cs) ← twoDigits? bounds.offsetHour cs
  let (minute, cs) ← twoDigits? bounds.offsetMinute (← expect? ':' cs)
  if hour * 60 + minute ≤ offsetLimit then return (hour * 60 + minute, cs) else none

/-- The normal form of an offset of minutes. -/
def offsetText (isBehind : Bool) (minutes : Nat) : List Char :=
  (if isBehind && minutes != 0 then '-' else '+')
    :: twoDigits (minutes / 60) ++ ':' :: twoDigits (minutes % 60)

/-- Reads an offset, which can be missing. -/
def offset? (bounds : MomentBounds) : List Char → Option (List Char × List Char)
  | [] => some ([], [])
  | c :: cs =>
    if c = 'Z' ∨ c = 'z' then some (['Z'], cs)
    else if c = '+' ∨ c = '-' then
      (offsetMinutes? bounds cs).map fun p => (offsetText (c = '-') p.1, p.2)
    else none

/-- Reads the time behind a date, with its offset. -/
def timeBehindDate? (bounds : MomentBounds) : List Char → Option (List Char)
  | c :: cs => do
    if c = 'T' ∨ c = 't' ∨ c = ' ' then
      let (time, cs) ← time? bounds cs
      let (offset, cs) ← offset? bounds cs
      if cs.isEmpty then return 'T' :: time ++ offset else none
    else none
  | [] => some []

/-- Reads a moment; gives its normal form. -/
def moment? (bounds : MomentBounds) (cs : List Char) : Option (List Char) :=
  match date? cs with
  | some (date, rest) => (timeBehindDate? bounds rest).map (date ++ ·)
  | none =>
    match time? bounds cs with
    | some (time, []) => some time
    | _ => none

end YangSchema.Toml
