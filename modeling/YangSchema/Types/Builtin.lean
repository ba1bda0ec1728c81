import YangSchema.Types.Interval

/-!
# Built-in types

The types that the language defines, with the numbers that each of them allows.
-/

namespace YangSchema

/-- A type that the language defines. -/
inductive Builtin where
  | binary | bits | boolean | decimal64 | empty | enumeration | identityref | instanceIdentifier
  | int8 | int16 | int32 | int64 | leafref | string | uint8 | uint16 | uint32 | uint64 | union
  deriving Repr, DecidableEq, Inhabited

namespace Builtin

/-- All built-in types. -/
def all : List Builtin := [
  .binary, .bits, .boolean, .decimal64, .empty, .enumeration, .identityref, .instanceIdentifier,
  .int8, .int16, .int32, .int64, .leafref, .string, .uint8, .uint16, .uint32, .uint64, .union]

/-- The name of a built-in type. -/
def name : Builtin → String
  | .binary => "binary"
  | .bits => "bits"
  | .boolean => "boolean"
  | .decimal64 => "decimal64"
  | .empty => "empty"
  | .enumeration => "enumeration"
  | .identityref => "identityref"
  | .instanceIdentifier => "instance-identifier"
  | .int8 => "int8"
  | .int16 => "int16"
  | .int32 => "int32"
  | .int64 => "int64"
  | .leafref => "leafref"
  | .string => "string"
  | .uint8 => "uint8"
  | .uint16 => "uint16"
  | .uint32 => "uint32"
  | .uint64 => "uint64"
  | .union => "union"

instance : ToString Builtin := ⟨name⟩

/-- The built-in type of a name. -/
def ofName? (name : String) : Option Builtin := all.find? fun b => b.name == name

/-- The numbers that a word of `bits` bits with a sign holds. -/
def signedWord (bits : Nat) : Interval := ⟨Text.signedMin bits, Text.signedMax bits⟩

/-- The numbers that a word of `bits` bits without a sign holds. -/
def unsignedWord (bits : Nat) : Interval := ⟨0, Text.wordMax bits⟩

/-- The numbers of an integer type. -/
def integerBounds? : Builtin → Option Interval
  | .int8 => some (signedWord 8)
  | .int16 => some (signedWord 16)
  | .int32 => some (signedWord 32)
  | .int64 => some (signedWord 64)
  | .uint8 => some (unsignedWord 8)
  | .uint16 => some (unsignedWord 16)
  | .uint32 => some (unsignedWord 32)
  | .uint64 => some (unsignedWord 64)
  | _ => none

/-- Whether a type takes a `range` restriction. -/
def isNumeric (b : Builtin) : Bool := b.integerBounds?.isSome || b == .decimal64

/-- Whether a type takes a `length` restriction. -/
def hasLength : Builtin → Bool
  | .string | .binary => true
  | _ => false

/-- The numbers that a type allows; those of a decimal type are scaled. -/
def ranges : Builtin → List Interval
  | .decimal64 => [signedWord 64]
  | b => b.integerBounds?.toList

/-- The lengths that a type allows. -/
def lengths (b : Builtin) : List Interval := if b.hasLength then [unsignedWord 64] else []

theorem mem_all (b : Builtin) : b ∈ all := by cases b <;> decide

theorem ofName?_name (b : Builtin) : ofName? b.name = some b := by cases b <;> decide +kernel

end Builtin

end YangSchema
