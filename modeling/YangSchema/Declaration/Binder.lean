import YangSchema.Declaration
import YangSchema.Linkage

/-!
# Binding keywords

An unprefixed keyword is bound to the built-in statement of that name in the language version of
the source. A prefixed keyword is bound to the extension of that name which is declared at the top
of a source that contributes to the module of the prefix. All statements below an extension are
left uninterpreted.
-/

namespace YangSchema

/-- The names of the extensions that are declared, with the modules to which they belong. -/
abbrev Extensions := List (SourceId × String)

namespace Extensions

/-- The extensions that one source declares. -/
def ofSource (s : LinkedSource) (root : Statement) : Extensions :=
  ((root.childrenNamed "extension").filterMap (·.argument)).map fun name => (s.owner, name)

/-- The extensions that all sources declare. -/
def ofSources (sources : List (LinkedSource × Statement)) : Extensions :=
  sources.flatMap fun s => ofSource s.1 s.2

end Extensions

namespace Declaration

/-- What a keyword of a source is bound to. -/
def bindKeyword (extensions : Extensions) (s : LinkedSource) (head : Head) : Result Binding :=
  let unknown := .error (.unknownStatement s.header.id head.keyword head.location)
  match head.keyword.qualifier with
  | none =>
    match Kind.ofKeyword? s.header.version head.keyword.identifier with
    | some kind => .ok (.builtin kind)
    | none => unknown
  | some p =>
    match s.prefixes.lookup p with
    | none => unknown
    | some module =>
      if (module, head.keyword.identifier) ∈ extensions then
        .ok (.extension module head.keyword.identifier)
      else unknown

/-- Whether the substatements of a statement are left uninterpreted. -/
def hidesContent : Binding → Bool
  | .builtin _ => false
  | _ => true

mutual

/-- Binds a statement and its substatements, in preorder; `hidden` says that it is content of an
extension. -/
def bind (binding : Head → Result Binding) (hidden : Bool) :
    Statement → Result (Tree (Head × Binding))
  | ⟨head, children⟩ => do
    let b ← if hidden then .ok .uninterpreted else binding head
    return ⟨(head, b), ← bindAll binding (hidesContent b) children⟩

/-- Binds a list of statements. -/
def bindAll (binding : Head → Result Binding) (hidden : Bool) :
    List Statement → Result (List (Tree (Head × Binding)))
  | [] => .ok []
  | s :: ss => do
    let t ← bind binding hidden s
    return t :: (← bindAll binding hidden ss)

end

/-- The label of a bound statement at a place. -/
def placed (place : Nat) (b : Head × Binding) : Declared := ⟨b.1, place, b.2⟩

/-- Binds the statements of a source. -/
def ofStatement (extensions : Extensions) (s : LinkedSource) (root : Statement) :
    Result Declaration := do
  let bound ← bind (bindKeyword extensions s) false root
  return bound.indexed placed 0

end Declaration

end YangSchema
