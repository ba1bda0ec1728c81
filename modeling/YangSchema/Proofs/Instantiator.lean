import YangSchema.Proofs.Copying
import YangSchema.Proofs.Rewriting

/-!
# Instantiating in an arena

`Expansion.copy` gives the nodes that a declaration becomes. An `Instantiator` puts them where they
belong as it goes: all nodes of a module are in one arena, and a declaration is instantiated by
adding cells under a parent. A `uses` adds the content of its grouping behind the children that the
parent has; what has come is then told by where the children began. Refining detaches cells and adds
others, and augmenting adds cells under those that have come.

The groupings that are being expanded are a stack, and the scope is pushed and popped. Reading a
slot that there is not, or a list from behind its end, is a panic.
-/

namespace YangSchema

/-- What is kept while a module is instantiated. -/
structure Instantiator where
  /-- The nodes of the module. -/
  tree : Arena
  /-- The groupings that are being expanded, from the outermost to the innermost one. -/
  usesStack : List Definition.Pending
  types : TypeTable
  /-- The scope of the statements that are being instantiated. -/
  scope : Scope

namespace Scope

/-- The scope outside the innermost statement. -/
def leave (scope : Scope) : Scope := ⟨scope.module, scope.frames.tail⟩

end Scope

namespace NodeLabel

/-- Adds conditions to a node. -/
def addConditions (conditions : List Condition) (l : NodeLabel) : NodeLabel :=
  { l with conditions := l.conditions ++ conditions }

/-- Marks a node as brought by an `augment`. -/
def markAugmenting (l : NodeLabel) : NodeLabel := { l with augmenting := true }

end NodeLabel

namespace Instantiator

open Expansion (Site)

/-- How instantiating can end. -/
inductive Fault where
  /-- The sources are in error. -/
  | error (e : Error)
  /-- There is no such slot, or a list ends before. -/
  | panic
  /-- Going through nodes does not come to an end. -/
  | endless

/-- A step of instantiating. -/
abbrev Action := StateT Instantiator (Except Fault)

variable {α : Type}

/-- Ends with an error. -/
def fail (e : Error) : Action α := throw (.error e)

/-- Does something that depends on nothing but the table of types. -/
def ofBuilding (x : Building α) : Action α := fun w =>
  match x w.types with
  | .ok (a, types) => .ok (a, { w with types := types })
  | .error e => .error (.error e)

/-! ## The arena -/

/-- The cell in a slot. -/
def cell (i : Nat) : Action Cell := do
  match (← get).tree[i]? with
  | some c => return c
  | none => throw .panic

/-- The labels of some nodes, with their slots. -/
def labels (slots : List Nat) : Action (List (Nat × NodeLabel)) :=
  slots.mapM fun i => do return (i, (← cell i).label)

/-- The children of a node from a place on. -/
def childrenFrom (parent first : Nat) : Action (List Nat) := do
  let c ← cell parent
  if first ≤ c.children.length then return c.children.drop first else throw .panic

/-- Changes the arena. -/
def update (f : Arena → Arena) : Action Unit := modify fun w => { w with tree := f w.tree }

/-- Adds a node under a parent, behind its children. -/
def add (parent : Nat) (label : NodeLabel) : Action Nat := do
  let _ ← cell parent
  let i := (← get).tree.length
  update (·.add parent label)
  return i

/-- Takes a node from its parent. -/
def detach (i : Nat) : Action Unit := do
  match (← cell i).parent with
  | none => return ()
  | some parent =>
    let _ ← cell parent
    update (·.detach i)

/-- Changes the label of a node. -/
def relabel (f : NodeLabel → NodeLabel) (i : Nat) : Action Unit := do
  let _ ← cell i
  update (·.relabel i f)

/-- Changes the labels of all nodes on a stack and below, the children of a node taking its place
on the stack. As many nodes can be visited as `fuel` says. -/
def relabelBelow (f : NodeLabel → NodeLabel) : (fuel : Nat) → List Nat → Action Unit
  | _, [] => return ()
  | 0, _ :: _ => throw .endless
  | fuel + 1, i :: stack => do
    relabel f i
    relabelBelow f fuel ((← cell i).children.reverse ++ stack)

/-! ## Scopes -/

/-- Does something in the scope of the substatements of a statement. -/
def inside (source : DeclaredSource) (d : Declaration) (x : Action α) : Action α := do
  modify fun w => { w with scope := w.scope.enter source d }
  let a ← x
  modify fun w => { w with scope := w.scope.leave }
  return a

/-- Does something while a grouping is being expanded, in the scope of what stands inside it. This
is a scope of its own: the one of before stays as it is. -/
def expanding (g : Definition) (x : Action α) : Action α := do
  let outer := (← get).scope
  modify fun w =>
    { w with usesStack := w.usesStack ++ [(g.key, g.qualifiedName)], scope := g.inner }
  let a ← x
  modify fun w => { w with usesStack := w.usesStack.dropLast, scope := outer }
  return a

/-! ## Finding nodes -/

/-- The node to which the names of a path lead from some nodes. -/
def find? : List Nat → List Step → Action (Option Nat)
  | _, [] => return none
  | slots, step :: rest => do
    match (← labels slots).find? fun x => x.2.isSchemaNode && x.2.schemaName == step.name with
    | none => return none
    | some (i, _) => if rest.isEmpty then return some i else find? (← cell i).children rest

/-- The node to which a path leads from some nodes. -/
def findRelative (slots : List Nat) (path : String) : Action (Option Nat) :=
  match SchemaPath.steps? false path with
  | none => return none
  | some steps => find? slots steps

/-! ## Refining -/

/-- Makes room for a property of a built-in kind, which the target must be able to have. -/
def makeRoom (source : SourceId) (property : Declaration) (target : Nat)
    (targetKind? : Option Kind) : Action Unit := do
  match property.kind?, targetKind? with
  | some kind, some targetKind =>
    if (targetKind.substatement? kind).isNone then
      fail (.grammar source property.label.keyword.text property.label.location
        (.notRefinable kind targetKind))
    else if Expansion.replaces kind targetKind then
      let children ← labels (← cell target).children
      ((children.filter fun x => x.2.kind? == some kind).map (·.1)).forM detach
    else return ()
  | _, _ => return ()

mutual

/-- Adds a declaration, as it is, under a parent. -/
def addDeclaration (module source : SourceId) (parent : Nat) : Declaration → Action Unit
  | ⟨label, children⟩ => do
    let i ← add parent (NodeLabel.ofDeclared module source true label)
    addDeclarations module source i children

/-- Adds the declarations of a list under a parent. -/
def addDeclarations (module source : SourceId) (parent : Nat) : List Declaration → Action Unit
  | [] => return ()
  | d :: ds => do
    addDeclaration module source parent d
    addDeclarations module source parent ds

end

/-- States one property of a node anew. There is neither a `uses` nor a type in a property, so that
it is added as it is. -/
def refineProperty (module source : SourceId) (target : Nat) (targetKind? : Option Kind)
    (property : Declaration) : Action Unit := do
  makeRoom source property target targetKind?
  addDeclaration module source target property

/-- Applies one `refine` to the nodes that a `uses` has brought. -/
def refine (module source : SourceId) (added : List Nat) (d : Declaration) : Action Unit := do
  match ← findRelative added d.argumentText with
  | none => fail (.refineTarget source d.label.location d.argumentText)
  | some target =>
    let targetKind? := (← cell target).label.kind?
    d.children.forM (refineProperty module source target targetKind?)

/-! ## Augmenting what a `uses` has brought -/

/-- The failure of an `augment` under a `uses`. -/
def augmentFault (source : SourceId) (d : Declared) (fault : AugmentFault) : Action α :=
  fail (.augment source d.location (d.argument.getD "") fault)

/-- The node to which an `augment` adds, among the nodes that a `uses` has brought. -/
def augmentTarget (source : SourceId) (d : Declared) (added : List Nat) : Action Nat := do
  match ← findRelative added (d.argument.getD "") with
  | none => augmentFault source d .targetNotFound
  | some target =>
    if (← cell target).label.kind?.any (·.isAugmentable) then return target
    else augmentFault source d .targetNotAugmentable

/-- The children of a node that have names in schema paths. -/
def schemaChildren (i : Nat) : Action (List Nat) := do
  let children ← labels (← cell i).children
  return (children.filter fun x => x.2.isSchemaNode).map (·.1)

/-- Marks a node that an `augment` has added and gives it conditions, if no node that was there
before has its name. -/
def markAdded (source : SourceId) (d : Declared) (conditions : List Condition)
    (existing : List Nat) (i : Nat) : Action Unit := do
  let name := (← cell i).label.schemaName
  let taken ← labels existing
  if name ∈ taken.map (·.2.schemaName) then augmentFault source d (.nameTaken name)
  else
    relabel (NodeLabel.addConditions conditions) i
    relabelBelow NodeLabel.markAugmenting (← get).tree.length [i]

/-! ## Instantiating -/

mutual

/-- Instantiates a declaration of `source` under a parent; `content` adds the content of
groupings. -/
def instantiate (e : Expansion) (content : Site → Nat → Action Unit) (source : DeclaredSource)
    (addedByUses : Bool) (parent : Nat) : Declaration → Action Unit
  | ⟨label, children⟩ => do
    let scope := (← get).scope
    if label.binding = .builtin .uses then
      let d ← ofBuilding (Definition.resolve e.model source .grouping label scope)
      let first := (← cell parent).children.length
      content ⟨source.id, label.location, d⟩ parent
      let added ← childrenFrom parent first
      let conditions := Node.conditionsOfDeclarations source.id children
      added.forM (relabel (NodeLabel.addConditions conditions))
      (children.filter (Declaration.is · .refine)).forM (refine e.module source.id added)
      augmentAll e content source added children
    else
      let isMember : Bool := (← cell parent).label.binding = .builtin .type
      let type ← ofBuilding (e.typeOf source scope isMember ⟨label, children⟩)
      let i ← add parent
        { NodeLabel.ofDeclared e.module source.id addedByUses label with type := type }
      inside source ⟨label, children⟩
        (instantiateAll e content source addedByUses i (fun _ => true) children)

/-- Instantiates the declarations of a list whose bindings satisfy a condition. -/
def instantiateAll (e : Expansion) (content : Site → Nat → Action Unit) (source : DeclaredSource)
    (addedByUses : Bool) (parent : Nat) (p : Binding → Bool) : List Declaration → Action Unit
  | [] => return ()
  | d :: ds => do
    if p d.label.binding then instantiate e content source addedByUses parent d
    instantiateAll e content source addedByUses parent p ds

/-- Applies the `augment` statements of a list to the nodes that a `uses` has brought. -/
def augmentAll (e : Expansion) (content : Site → Nat → Action Unit) (source : DeclaredSource)
    (added : List Nat) : List Declaration → Action Unit
  | [] => return ()
  | ⟨label, children⟩ :: ds => do
    if label.binding = .builtin .augment then
      let target ← augmentTarget source.id label added
      let existing ← schemaChildren target
      let first := (← cell target).children.length
      inside source ⟨label, children⟩
        (instantiateAll e content source true target Node.isAugmentContent children)
      let conditions := Node.conditionsOfDeclarations source.id children
      (← childrenFrom target first).forM (markAdded source.id label conditions existing)
    augmentAll e content source added ds

end

/-- Adds the content of a grouping under a parent. At most `depth` groupings are entered one in
another. -/
def expandGrouping (e : Expansion) : (depth : Nat) → Site → (parent : Nat) → Action Unit
  | 0, site, _ => do fail (Expansion.cycleError (← get).usesStack site)
  | depth + 1, site, parent => do
    let w ← get
    let g := site.definition
    if g.isPending w.usesStack then fail (Expansion.cycleError w.usesStack site)
    else
      expanding g (instantiateAll e (expandGrouping e depth) g.source true parent
        Node.isGroupingContent g.statement.children)

end Instantiator

end YangSchema
