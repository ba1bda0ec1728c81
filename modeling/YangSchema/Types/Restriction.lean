import YangSchema.Declaration
import YangSchema.Error
import YangSchema.Pattern
import YangSchema.Types.Effective

/-!
# Restrictions

The substatements of a `type` statement narrow the type that it names. Some of them give a built-in
type its content, such as the members of an enumeration; these are needed where the built-in type
itself is named, and can at most be narrowed where a typedef is.
-/

namespace YangSchema

/-- A `type` statement of a source that narrows a type. -/
structure TypeUse where
  source : SourceId
  statement : Declaration
  /-- Whether the statement names a typedef. -/
  derived : Bool

namespace TypeUse

/-- The failure of a `type` statement. -/
def fault {α : Type} (u : TypeUse) (f : RestrictionFault) : Result α :=
  .error (.restriction u.source u.statement.label.location u.statement.argumentText f)

/-- The arguments of the substatements of a kind. -/
def arguments (u : TypeUse) (kind : Kind) : List String :=
  (u.statement.childrenOfKind kind).filterMap (·.label.argument)

/-! ## Numbers and lengths -/

/-- Sets the number of fraction digits, which `decimal64` needs and no other type takes. -/
def fractionDigits (u : TypeUse) (t : EffectiveType) : Result EffectiveType :=
  match u.statement.firstChild? .fractionDigits with
  | some d =>
    if t.base ≠ .decimal64 ∨ u.derived then u.fault (.onlyOnItself .fractionDigits .decimal64)
    else
      match d.label.argument.bind (Text.unsigned? (Text.wordMax 8)) with
      | some digits => .ok { t with fractionDigits := some digits }
      | none => u.fault .invalidFractionDigits
  | none =>
    if t.base = .decimal64 ∧ !u.derived then u.fault (.required .decimal64 .fractionDigits)
    else .ok t

/-- The intervals that a restriction of `allowed` states. -/
def narrow (u : TypeUse) (kind : Kind) (allowed : List Interval) (scale : Option Nat)
    (text : String) : Result (List Interval) :=
  match Interval.listOfString? text allowed scale with
  | none => u.fault (.malformed kind text)
  | some stated =>
    if Interval.isSubset stated allowed then .ok stated
    else u.fault (.notWithin kind text allowed)

/-- Narrows the range of a numeric type. -/
def range (u : TypeUse) (t : EffectiveType) : Result EffectiveType :=
  match u.statement.firstChild? .range with
  | none => .ok t
  | some d =>
    if t.base.isNumeric then do
      let ranges ← u.narrow .range t.ranges t.fractionDigits d.argumentText
      return { t with ranges := ranges }
    else u.fault (.notAllowedOn .range t.base)

/-- Narrows the length of a type of texts. -/
def length (u : TypeUse) (t : EffectiveType) : Result EffectiveType :=
  match u.statement.firstChild? .length with
  | none => .ok t
  | some d =>
    if t.base.hasLength then do
      let lengths ← u.narrow .length t.lengths none d.argumentText
      return { t with lengths := lengths }
    else u.fault (.notAllowedOn .length t.base)

/-! ## Patterns -/

/-- Reads one `pattern` statement under a type. -/
def pattern (u : TypeUse) (t : EffectiveType) (d : Declaration) : Result PatternRestriction :=
  if t.base ≠ .string then u.fault (.notAllowedOn .pattern t.base)
  else if Pattern.isValid d.argumentText then
    .ok ⟨d.argumentText, (d.firstChild? .modifier).isSome⟩
  else u.fault (.invalidPattern d.argumentText)

/-- Adds the patterns of a `type` statement. -/
def patterns (u : TypeUse) (t : EffectiveType) : Result EffectiveType := do
  let added ← (u.statement.childrenOfKind .pattern).mapM (u.pattern t)
  return { t with patterns := t.patterns ++ added }

/-! ## Names -/

/-- The first fault of a list of names behind the names `before`: one that is repeated, or one that
a derived type does not find among those it inherits. -/
def nameFault? (u : TypeUse) (kind : Kind) (inherited before : List String) :
    List String → Option RestrictionFault
  | [] => none
  | name :: rest =>
    if name ∈ before then some (.definedTwice kind name)
    else if u.derived && name ∉ inherited then some (.notInherited kind name)
    else nameFault? u kind inherited (before ++ [name]) rest

/-- The names that the substatements of a kind give to a type of which `base` is the only one with
such names. -/
def names (u : TypeUse) (kind : Kind) (base : Builtin) (t : EffectiveType)
    (inherited : List String) : Result (List String) :=
  let stated := u.arguments kind
  if stated.isEmpty then
    if t.base = base ∧ !u.derived then u.fault (.required base kind) else .ok inherited
  else if t.base ≠ base then u.fault (.notAllowedOn kind t.base)
  else
    match u.nameFault? kind inherited [] stated with
    | some f => u.fault f
    | none => .ok stated

/-- Sets the names of an enumeration. -/
def enums (u : TypeUse) (t : EffectiveType) : Result EffectiveType := do
  let enums ← u.names .enum .enumeration t t.enums
  return { t with enums := enums }

/-- Sets the names of bits. -/
def bits (u : TypeUse) (t : EffectiveType) : Result EffectiveType := do
  let bits ← u.names .bit .bits t t.bits
  return { t with bits := bits }

/-! ## References -/

/-- Sets the path, which `leafref` needs and no other type takes. -/
def path (u : TypeUse) (t : EffectiveType) : Result EffectiveType :=
  let takesPath := t.base == .leafref && !u.derived
  match u.statement.firstChild? .path with
  | some d =>
    if takesPath then .ok { t with path := d.label.argument }
    else u.fault (.onlyOnItself .path .leafref)
  | none => if takesPath then u.fault (.required .leafref .path) else .ok t

/-- Sets the bases, which `identityref` needs and no other type takes. -/
def bases (u : TypeUse) (t : EffectiveType) : Result EffectiveType :=
  let takesBases := t.base == .identityref && !u.derived
  let stated := u.arguments .base
  if stated.isEmpty then
    if takesBases then u.fault (.required .identityref .base) else .ok t
  else if takesBases then .ok { t with bases := stated }
  else u.fault (.onlyOnItself .base .identityref)

/-- Says whether a type of references demands that what it refers to exists. -/
def requireInstance (u : TypeUse) (t : EffectiveType) : Result EffectiveType :=
  match u.statement.firstChild? .requireInstance with
  | none => .ok t
  | some d =>
    if t.base ∈ [.leafref, .instanceIdentifier] then
      .ok { t with requireInstance := some (d.label.argument == some "true") }
    else u.fault (.notAllowedOn .requireInstance t.base)

/-! ## Members -/

/-- Refuses member types on all but `union`, which needs some. -/
def checkMembers (u : TypeUse) (t : EffectiveType) : Result Unit :=
  let takesMembers := t.base == .union && !u.derived
  let hasMembers := (u.statement.firstChild? .type).isSome
  if hasMembers && !takesMembers then u.fault (.onlyOnItself .type .union)
  else if takesMembers && !hasMembers then u.fault (.required .union .type)
  else .ok ()

/-! ## All restrictions -/

/-- The restrictions of a `type` statement that come before its members. -/
def restrictValues (u : TypeUse) (t : EffectiveType) : Result EffectiveType := do
  let t ← u.fractionDigits t
  let t ← u.range t
  let t ← u.length t
  let t ← u.patterns t
  let t ← u.enums t
  u.bits t

/-- The restrictions of a `type` statement that come behind its members. -/
def restrictReferences (u : TypeUse) (t : EffectiveType) : Result EffectiveType := do
  let t ← u.path t
  let t ← u.bases t
  u.requireInstance t

end TypeUse

end YangSchema
