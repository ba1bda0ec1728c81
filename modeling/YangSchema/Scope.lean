import YangSchema.Declaration.Model
import YangSchema.SchemaPath

/-!
# Scopes

A grouping or typedef is visible in the statement that declares it. A reference looks for it in the
enclosing statements, from the innermost one outwards, and then at the top of the sources of the
module. A reference with the prefix of another module looks only at the top of the sources of that
module; the prefix of the own module changes nothing.
-/

namespace YangSchema

/-- A statement of a source. -/
structure Frame where
  source : DeclaredSource
  statement : Declaration

/-- The statements that enclose a place, innermost first, below the top of a module. -/
structure Scope where
  module : SourceId
  frames : List Frame

/-- A grouping or typedef, with the scope in which it was declared. -/
structure Definition where
  source : DeclaredSource
  statement : Declaration
  scope : Scope

namespace Scope

/-- The scope of the top-level statements of a module. -/
def top (module : SourceId) : Scope := ⟨module, []⟩

/-- The scope of the substatements of a statement. -/
def enter (scope : Scope) (source : DeclaredSource) (statement : Declaration) : Scope :=
  ⟨scope.module, ⟨source, statement⟩ :: scope.frames⟩

end Scope

namespace Definition

/-- What tells a definition from all others: its source and its place there. -/
def key (d : Definition) : SourceId × Nat := (d.source.id, d.statement.label.place)

/-- The scope of what stands inside a definition. -/
def inner (d : Definition) : Scope := d.scope.enter d.source d.statement

/-- The name of a definition behind the name of the module that owns it. -/
def qualifiedName (d : Definition) : String :=
  d.source.owner.name ++ ":" ++ Declaration.argumentText d.statement

/-! ## Looking up -/

/-- The definition of a name among the substatements of a statement. -/
def among? (kind : Kind) (name : String) (parent : Declaration) : Option Declaration :=
  (parent.childrenOfKind kind).find? fun d => d.label.argument == some name

/-- The definition of a name at the top of a module, the first in the order of its family. -/
def atTop? (model : DeclaredModel) (kind : Kind) (name : String) (module : SourceId) :
    Option Definition :=
  (model.family module).findSome? fun s =>
    (among? kind name s.root).map fun d => ⟨s, d, .top module⟩

/-- The innermost definition of a name in the enclosing statements. -/
def inFrames? (kind : Kind) (name : String) (module : SourceId) :
    List Frame → Option Definition
  | [] => none
  | f :: fs =>
    match among? kind name f.statement with
    | some d => some ⟨f.source, d, ⟨module, f :: fs⟩⟩
    | none => inFrames? kind name module fs

/-- The definition that an unprefixed name refers to. -/
def visible? (model : DeclaredModel) (kind : Kind) (name : String) (scope : Scope) :
    Option Definition :=
  (inFrames? kind name scope.module scope.frames).or (atTop? model kind name scope.module)

/-- The definition that a name refers to which is written in a source at a scope. -/
def refersTo? (model : DeclaredModel) (source : DeclaredSource) (kind : Kind) (name : String)
    (scope : Scope) : Option Definition :=
  match Text.splitOnce? ':' name with
  | none => visible? model kind name scope
  | some (p, bare) =>
    match source.prefixTarget? p with
    | none => none
    | some module =>
      if module = source.owner then visible? model kind bare scope
      else atTop? model kind bare module

/-- The word for a kind of definition in messages. -/
def referenceKind : Kind → ReferenceKind
  | .typedef => .typedef
  | _ => .grouping

/-- The definition that the argument of a `uses` or `type` statement refers to. -/
def resolve (model : DeclaredModel) (source : DeclaredSource) (kind : Kind)
    (reference : Declared) (scope : Scope) : Result Definition :=
  let name := reference.argument.getD ""
  match refersTo? model source kind name scope with
  | some d => .ok d
  | none => .error (.unresolved source.id reference.location (referenceKind kind) name)

/-! ## Cycles -/

/-- A definition that is being worked on: its key and its name. -/
abbrev Pending := (SourceId × Nat) × String

/-- The definitions from the one of a key on, closed by its name; latest definitions come last. -/
def cycle (d : Definition) (pending : List Pending) : List String :=
  ((pending.dropWhile fun p => p.1 ≠ d.key).map (·.2)) ++ [d.qualifiedName]

/-- Whether a definition is being worked on. -/
def isPending (d : Definition) (pending : List Pending) : Bool :=
  pending.any fun p => p.1 = d.key

end Definition

namespace DeclaredModel

/-- How many statements of a kind there are in all sources. -/
def countOfKind (m : DeclaredModel) (kind : Kind) : Nat :=
  (m.sources.flatMap fun s => s.root.subtrees.filter (Declaration.is · kind)).length

end DeclaredModel

end YangSchema
