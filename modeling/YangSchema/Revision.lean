import YangSchema.Text.Digits

/-!
# Revisions

A revision is a date of the Gregorian calendar, extended backwards, with a year from 0 to 9999. It
is written `YYYY-MM-DD` and has no other written form. Revisions are ordered by date, which is the
order of their written forms.
-/

namespace YangSchema

/-- Whether a year has a 29th of February. -/
def isLeapYear (year : Nat) : Bool :=
  year % 4 == 0 && (year % 100 != 0 || year % 400 == 0)

/-- The number of days of a month. -/
def daysInMonth (year month : Nat) : Nat :=
  if month = 2 then (if isLeapYear year then 29 else 28)
  else if month = 4 ∨ month = 6 ∨ month = 9 ∨ month = 11 then 30
  else 31

/-- Whether three numbers are a date. -/
def IsDate (year month day : Nat) : Prop :=
  year ≤ 9999 ∧ 1 ≤ month ∧ month ≤ 12 ∧ 1 ≤ day ∧ day ≤ daysInMonth year month

instance (year month day : Nat) : Decidable (IsDate year month day) :=
  inferInstanceAs (Decidable (_ ∧ _))

/-- A date that names a revision of a module. -/
structure Revision where
  year : Nat
  month : Nat
  day : Nat
  isDate : IsDate year month day
  deriving Repr, DecidableEq

namespace Revision

/-- A revision from its three numbers, if they are a date. -/
def ofNumbers? (year month day : Nat) : Option Revision :=
  if h : IsDate year month day then some ⟨year, month, day, h⟩ else none

/-- Reads the written form. -/
def ofChars? : List Char → Option Revision
  | [y₁, y₂, y₃, y₄, '-', m₁, m₂, '-', d₁, d₂] =>
    match Text.natOfDigits? [y₁, y₂, y₃, y₄], Text.natOfDigits? [m₁, m₂],
      Text.natOfDigits? [d₁, d₂] with
    | some year, some month, some day => ofNumbers? year month day
    | _, _, _ => none
  | _ => none

/-- Reads the written form. -/
def ofString? (text : String) : Option Revision := ofChars? text.toList

/-- The characters of the written form. -/
def chars (r : Revision) : List Char :=
  Text.paddedDigits 4 r.year ++ '-' :: Text.paddedDigits 2 r.month
    ++ '-' :: Text.paddedDigits 2 r.day

/-- The written form. -/
def text (r : Revision) : String := String.ofList r.chars

instance : ToString Revision := ⟨text⟩

/-- A number that grows with the date. -/
def number (r : Revision) : Nat := (r.year * 100 + r.month) * 100 + r.day

/-- Compares by date. -/
def compare (a b : Revision) : Ordering := Ord.compare a.number b.number

instance : Ord Revision := ⟨compare⟩

end Revision

/-- Compares two optional revisions: the absent one comes first. -/
def compareRevisions : Option Revision → Option Revision → Ordering
  | none, none => .eq
  | none, some _ => .lt
  | some _, none => .gt
  | some a, some b => a.compare b

/-- The later of two optional revisions. -/
def laterRevision (a b : Option Revision) : Option Revision :=
  if compareRevisions a b = .lt then b else a

end YangSchema
