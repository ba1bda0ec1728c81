import YangSchema.Types.Builtin

/-!
# Effective types

An effective type is what a `type` statement amounts to: the built-in type at the end of its chain
of typedefs, with all restrictions on the way. Numbers of decimal types are kept as integers,
scaled by a power of ten.
-/

namespace YangSchema

/-- A pattern that values must match, or must not match if it is inverted. -/
structure PatternRestriction where
  expression : String
  inverted : Bool
  deriving Repr, DecidableEq

/-- A resolved type. -/
structure EffectiveType where
  /-- The name by which the `type` statement refers to it. -/
  name : String
  base : Builtin
  /-- The chain of typedefs as `module:name`, nearest first. -/
  typedefs : List String
  ranges : List Interval
  lengths : List Interval
  fractionDigits : Option Nat
  patterns : List PatternRestriction
  enums : List String
  bits : List String
  /-- The types of which a union consists. -/
  members : List EffectiveType
  path : Option String
  bases : List String
  requireInstance : Option Bool
  units : Option String
  default : Option String
  deriving Repr, Inhabited

namespace EffectiveType

/-- A built-in type without restrictions. -/
def ofBuiltin (base : Builtin) : EffectiveType where
  name := base.name
  base := base
  typedefs := []
  ranges := base.ranges
  lengths := base.lengths
  fractionDigits := none
  patterns := []
  enums := []
  bits := []
  members := []
  path := none
  bases := []
  requireInstance := none
  units := none
  default := none

/-- Whether a number, scaled if the type is decimal, lies in the range of a type. -/
def rangeContains (t : EffectiveType) (n : Int) : Bool := Interval.anyContains t.ranges n

/-- Whether a type allows values of a length. -/
def lengthAllows (t : EffectiveType) (length : Nat) : Bool := Interval.anyContains t.lengths length

end EffectiveType

end YangSchema
