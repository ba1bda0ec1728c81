/-!
# Cardinalities

How often a substatement may appear under its parent.
-/

namespace YangSchema

/-- A bound on a number of substatements. -/
inductive Cardinality where
  /-- At most one. -/
  | optional
  /-- Exactly one. -/
  | one
  /-- Any number. -/
  | many
  /-- One or more. -/
  | atLeastOne
  deriving Repr, DecidableEq, Inhabited

namespace Cardinality

/-- Whether a number of substatements is within the bound. -/
def allows (c : Cardinality) (count : Nat) : Bool :=
  match c with
  | .optional => count ≤ 1
  | .one => count == 1
  | .many => true
  | .atLeastOne => 1 ≤ count

/-- Whether the bound asks for a substatement. -/
def isRequired : Cardinality → Bool
  | .one | .atLeastOne => true
  | .optional | .many => false

/-- Whether the bound allows one substatement at most. -/
def isSingle : Cardinality → Bool
  | .optional | .one => true
  | .many | .atLeastOne => false

/-- The written form. -/
def text : Cardinality → String
  | .optional => "0..1"
  | .one => "1"
  | .many => "0..n"
  | .atLeastOne => "1..n"

instance : ToString Cardinality := ⟨text⟩

/-- A bound asks for a substatement exactly if it does not allow none. -/
theorem isRequired_iff (c : Cardinality) : c.isRequired = true ↔ c.allows 0 = false := by
  cases c <;> decide

end Cardinality

end YangSchema
