import YangSchema.Schema.Node
import YangSchema.Types.Resolution

/-!
# Expanding groupings

A module is instantiated by copying its declarations, with those of its submodules. A `uses` is not
copied: the content of its grouping takes its place, as seen from where the grouping is declared,
and is then adjusted by the `refine` and `augment` substatements of the `uses`, in this order.

A grouping must not use itself, be it directly or through others. `Expansion.ofGrouping` keeps the
groupings that are being expanded and fails when one is met again.
-/

namespace YangSchema

/-- Where declarations are copied to: the module, and what is known of all sources. -/
structure Expansion where
  model : DeclaredModel
  module : SourceId

namespace Expansion

/-! ## Refining -/

/-- Whether a property that a `refine` states takes the place of those that a node of kind `target`
has, rather than adding to them. -/
def replaces (property target : Kind) : Bool :=
  match property with
  | .must | .ifFeature => false
  | .default => target != .leafList
  | _ => true

/-- Makes room for a property of a built-in kind, which the target must be able to have. -/
def makeRoom (source : SourceId) (property : Declaration) (target : Node) : Result Node :=
  match property.kind?, Node.kind? target with
  | some kind, some targetKind =>
    if (targetKind.substatement? kind).isNone then
      .error (.grammar source property.label.keyword.text property.label.location
        (.notRefinable kind targetKind))
    else if replaces kind targetKind then .ok (target.removeChildren (Node.is · kind))
    else .ok target
  | _, _ => .ok target

/-- States one property of a node anew. -/
def refineProperty (e : Expansion) (source : SourceId) (target : Node) (property : Declaration) :
    Result Node := do
  let target ← makeRoom source property target
  return target.addChild (Node.ofDeclaration e.module source true property)

/-- Applies one `refine` to the nodes that a `uses` has brought. -/
def refine (e : Expansion) (source : SourceId) (nodes : List Node) (d : Declaration) :
    Result (List Node) :=
  let address := (SchemaPath.steps? false d.argumentText).bind (Node.addressIn? nodes)
  match address, address.bind (Tree.forestSubtree? nodes) with
  | some address, some target => do
    let refined ← d.children.foldlM (e.refineProperty source) target
    return Tree.forestReplace refined nodes address
  | _, _ => .error (.refineTarget source d.label.location d.argumentText)

/-- Applies `refine` statements one after the other. -/
def refineAll (e : Expansion) (source : SourceId) (nodes : List Node) (ds : List Declaration) :
    Result (List Node) := ds.foldlM (e.refine source) nodes

/-! ## Augmenting what a `uses` has brought -/

/-- The failure of an `augment` under a `uses`. -/
def augmentFault {α : Type} (source : SourceId) (d : Declared) (fault : AugmentFault) : Result α :=
  .error (.augment source d.location (d.argument.getD "") fault)

/-- The node among `nodes` to which an `augment` adds, with its address. -/
def augmentTarget (source : SourceId) (d : Declared) (nodes : List Node) :
    Result (List Nat × Node) :=
  let address := (SchemaPath.steps? false (d.argument.getD "")).bind (Node.addressIn? nodes)
  match address, address.bind (Tree.forestSubtree? nodes) with
  | some address, some target =>
    if (Node.kind? target).any (·.isAugmentable) then .ok (address, target)
    else augmentFault source d .targetNotAugmentable
  | _, _ => augmentFault source d .targetNotFound

/-- Adds nodes to a target, none of which may have a name that a node there has. -/
def augment (source : SourceId) (d : Declared) (conditions : List Condition) (target : Node)
    (added : List Node) : Result Node :=
  let taken := target.schemaChildren.map Node.schemaName
  match added.find? fun n => n.schemaName ∈ taken with
  | some n => augmentFault source d (.nameTaken n.schemaName)
  | none =>
    .ok (target.addChildren (added.map fun n => (n.addConditions conditions).markAugmenting))

/-! ## Copying -/

/-- A `uses` as the expansion of a grouping sees it: who uses what, and from where. -/
structure Site where
  source : SourceId
  location : Location
  definition : Definition

/-- The type of a copied statement: a `type` has one unless it is a member of another. -/
def typeOf (e : Expansion) (source : DeclaredSource) (scope : Scope) (isMember : Bool)
    (d : Declaration) : Building (Option EffectiveType) :=
  if d.is .type && !isMember then return some (← EffectiveType.resolve e.model source scope d)
  else return none

mutual

/-- The nodes that a declaration of `source` becomes; `grouping` expands groupings. -/
def copy (e : Expansion) (grouping : Site → Building (List Node)) (source : DeclaredSource)
    (addedByUses isMember : Bool) (scope : Scope) : Declaration → Building (List Node)
  | ⟨label, children⟩ => do
    if label.binding = .builtin .uses then
      let d ← Definition.resolve e.model source .grouping label scope
      let nodes ← grouping ⟨source.id, label.location, d⟩
      let conditions := Node.conditionsOfDeclarations source.id children
      let nodes := nodes.map (Node.addConditions conditions)
      let nodes ← e.refineAll source.id nodes (children.filter (Declaration.is · .refine))
      augmentAll e grouping source scope nodes children
    else
      let type ← e.typeOf source scope isMember ⟨label, children⟩
      let copied ← copyAll e grouping source addedByUses (label.binding = .builtin .type)
        (scope.enter source ⟨label, children⟩) (fun _ => true) children
      let label := { NodeLabel.ofDeclared e.module source.id addedByUses label with type := type }
      return [⟨label, copied⟩]

/-- The nodes that the declarations of a list become whose bindings satisfy a condition. -/
def copyAll (e : Expansion) (grouping : Site → Building (List Node)) (source : DeclaredSource)
    (addedByUses isMember : Bool) (scope : Scope) (p : Binding → Bool) :
    List Declaration → Building (List Node)
  | [] => return []
  | d :: ds => do
    if p d.label.binding then
      let nodes ← copy e grouping source addedByUses isMember scope d
      return nodes ++ (← copyAll e grouping source addedByUses isMember scope p ds)
    else copyAll e grouping source addedByUses isMember scope p ds

/-- Applies the `augment` statements of a list to the nodes that a `uses` has brought. -/
def augmentAll (e : Expansion) (grouping : Site → Building (List Node)) (source : DeclaredSource)
    (scope : Scope) (nodes : List Node) : List Declaration → Building (List Node)
  | [] => return nodes
  | ⟨label, children⟩ :: ds => do
    if label.binding = .builtin .augment then
      let (address, target) ← augmentTarget source.id label nodes
      let added ← copyAll e grouping source true false (scope.enter source ⟨label, children⟩)
        Node.isAugmentContent children
      let conditions := Node.conditionsOfDeclarations source.id children
      let target ← augment source.id label conditions target added
      augmentAll e grouping source scope (Tree.forestReplace target nodes address) ds
    else augmentAll e grouping source scope nodes ds

end

/-! ## Expanding -/

/-- The error of a `uses` that leads back to a grouping which is being expanded. -/
def cycleError (pending : List Definition.Pending) (site : Site) : Error :=
  .groupingCycle site.source site.location (site.definition.cycle pending)

/-- The nodes of a grouping. `pending` are the groupings that are being expanded, from the
outermost to the innermost one; at most `depth` more can be entered. Where `depth` starts as the
number of all groupings, it ends only when all of them are pending. -/
def ofGrouping (e : Expansion) :
    (depth : Nat) → (pending : List Definition.Pending) → Site → Building (List Node)
  | 0, pending, site => throw (cycleError pending site)
  | depth + 1, pending, site =>
    let d := site.definition
    if d.isPending pending then throw (cycleError pending site)
    else
      copyAll e (ofGrouping e depth (pending ++ [(d.key, d.qualifiedName)])) d.source true false
        d.inner Node.isGroupingContent d.statement.children

/-- Whether a top-level statement of another source of its family is copied into a module: the
body is, what describes the source itself is not. -/
def isBody (b : Binding) : Bool := b.kind?.all fun k => Section.ofKind k == .body

/-- The nodes that the top-level statements of a source of the family become. -/
def ofSource (e : Expansion) (s : DeclaredSource) : Building (List Node) :=
  let grouping := e.ofGrouping (e.model.countOfKind .grouping) []
  copyAll e grouping s false false (.top e.module) (fun b => s.id = e.module || isBody b)
    s.root.children

/-- The nodes of a module and its submodules. -/
def nodes (e : Expansion) : Building (List Node) := do
  let parts ← (e.model.family e.module).mapM e.ofSource
  return parts.flatten

end Expansion

end YangSchema
