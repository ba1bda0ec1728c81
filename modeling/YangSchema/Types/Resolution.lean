import YangSchema.Scope
import YangSchema.Types.Restriction

/-!
# Resolving types

A `type` statement names a built-in type or a typedef. A name without a colon that is that of a
built-in type always means the built-in type. The type that a typedef stands for is resolved once
for a module and then kept, whatever the place from which it is referred to.
-/

namespace YangSchema

/-- The typedefs of a module that have been resolved. -/
abbrev TypeTable := List ((SourceId × Nat) × EffectiveType)

/-- A computation that resolves types and keeps those of typedefs. -/
abbrev Building := StateT TypeTable Result

namespace EffectiveType

/-- The type of the given name with member types added. -/
def addMembers (t : EffectiveType) (members : List EffectiveType) : EffectiveType :=
  { t with members := t.members ++ members }

/-- The type that a `type` statement names, and whether it is a typedef. -/
def named (model : DeclaredModel) (defined : Definition → Building EffectiveType)
    (source : DeclaredSource) (scope : Scope) (reference : Declared) :
    Building (EffectiveType × Bool) :=
  let name := reference.argument.getD ""
  match Builtin.ofName? name with
  | some base => return ({ ofBuiltin base with name := name }, false)
  | none => do
    let d ← Definition.resolve model source .typedef reference scope
    return ({ ← defined d with name := name }, true)

mutual

/-- The type of a `type` statement of a source; `defined` gives the types of typedefs. -/
def ofDeclaration (model : DeclaredModel) (defined : Definition → Building EffectiveType)
    (source : DeclaredSource) (scope : Scope) : Declaration → Building EffectiveType
  | ⟨label, children⟩ => do
    let (t, derived) ← named model defined source scope label
    let u : TypeUse := ⟨source.id, ⟨label, children⟩, derived⟩
    let t ← u.restrictValues t
    u.checkMembers t
    let members ← membersOf model defined source scope children
    u.restrictReferences (t.addMembers members)

/-- The types of the `type` statements of a list. -/
def membersOf (model : DeclaredModel) (defined : Definition → Building EffectiveType)
    (source : DeclaredSource) (scope : Scope) : List Declaration → Building (List EffectiveType)
  | [] => return []
  | d :: ds => do
    if Declaration.is d .type then
      let t ← ofDeclaration model defined source scope d
      return t :: (← membersOf model defined source scope ds)
    else membersOf model defined source scope ds

end

/-- What a typedef adds to the type that it is derived from. -/
def derive (d : Definition) (t : EffectiveType) : EffectiveType :=
  { t with
    typedefs := d.qualifiedName :: t.typedefs
    units := (d.statement.childArgument? .units).or t.units
    default := (d.statement.childArgument? .default).or t.default }

/-- The error of a typedef that refers to itself through `pending`. -/
def cycleError (pending : List Definition.Pending) (d : Definition) : Error :=
  .typeCycle d.source.id d.statement.label.location (d.cycle pending)

/-- The `type` statement of a typedef. -/
def typeStatement (d : Definition) : Result Declaration :=
  match d.statement.firstChild? .type with
  | some s => .ok s
  | none =>
    .error (.grammar d.source.id "typedef" d.statement.label.location (.missingSubstatement "type"))

/-- The type of a typedef. `pending` are the typedefs that are being resolved, from the outermost
to the innermost one; at most `depth` more can be entered. Where `depth` starts as the number of
all typedefs, it ends only when all of them are pending. -/
def ofDefinition (model : DeclaredModel) :
    (depth : Nat) → (pending : List Definition.Pending) → Definition → Building EffectiveType
  | depth, pending, d => do
    match (← get).lookup d.key with
    | some t => return t
    | none =>
      if d.isPending pending then throw (cycleError pending d)
      match depth with
      | 0 => throw (cycleError pending d)
      | depth + 1 =>
        let statement ← typeStatement d
        let defined := ofDefinition model depth (pending ++ [(d.key, d.qualifiedName)])
        let t := derive d (← ofDeclaration model defined d.source d.inner statement)
        modify fun table => (d.key, t) :: table
        return t

/-- The type of a `type` statement. -/
def resolve (model : DeclaredModel) (source : DeclaredSource) (scope : Scope)
    (statement : Declaration) : Building EffectiveType :=
  ofDeclaration model (ofDefinition model (model.countOfKind .typedef) []) source scope statement

end EffectiveType

end YangSchema
