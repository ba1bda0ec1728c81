import YangSchema.Schema.Expansion

/-!
# The trees of all modules

While a schema is built there is one tree for every module, in identifier order. An absolute schema
path leads through the tree of the module that its first step names; every step names a child by its
module and its name. The prefix of a step is that of the source in which the path is written; a step
without one names the module to which that source contributes.
-/

namespace YangSchema

/-- The tree of a module: its identifier and its effective nodes. -/
structure ModuleTree where
  id : SourceId
  root : Node
  deriving Inhabited

namespace ModuleTree

/-- Instantiates a module. -/
def ofModule (model : DeclaredModel) (m : DeclaredSource) : Result ModuleTree := do
  let (nodes, _) ← (Expansion.nodes ⟨model, m.id⟩).run []
  return ⟨m.id, ⟨NodeLabel.ofDeclared m.id m.id false m.root.label, nodes⟩⟩

/-- The statements of a kind at the top of a module. -/
def statements (t : ModuleTree) (kind : Kind) : List Node := Node.childrenOfKind t.root kind

end ModuleTree

/-- The trees of all modules. -/
abbrev Forest := List ModuleTree

/-- A node in the trees of all modules: the module of the tree, its address there, and itself. -/
structure Target where
  module : SourceId
  address : List Nat
  node : Node

namespace Forest

/-- Instantiates all modules of a model. -/
def ofModel (model : DeclaredModel) : Result Forest :=
  model.modules.mapM (ModuleTree.ofModule model)

/-- The tree of a module. -/
def root? (f : Forest) (module : SourceId) : Option Node :=
  (f.find? fun t => t.id = module).map (·.root)

/-- Changes the tree of a module. -/
def update (f : Forest) (module : SourceId) (g : Node → Node) : Forest :=
  f.map fun t => if t.id = module then ⟨t.id, g t.root⟩ else t

/-- Puts a node in the place of a target. -/
def replace (f : Forest) (target : Target) (n : Node) : Forest :=
  f.update target.module (Tree.replace n target.address)

/-- Takes out a target. -/
def remove (f : Forest) (target : Target) : Forest :=
  f.update target.module (Tree.remove target.address)

/-! ## Paths -/

/-- The module that a step of a path names which is written in a source. -/
def stepModule? (model : DeclaredModel) (source : SourceId) (step : Step) : Option SourceId := do
  let s ← model.source? source
  match step.qualifier with
  | some p => s.prefixTarget? p
  | none => return s.owner

/-- The module that a step names, or else the fault of the step. -/
def stepModule (model : DeclaredModel) (source : SourceId) (step : Step) :
    Except PathFault SourceId :=
  match stepModule? model source step with
  | some module => .ok module
  | none => .error (.unknownPrefix step.text)

/-- The address to which steps lead from a node, and the node there. -/
def follow (model : DeclaredModel) (source : SourceId) (n : Node) :
    List Step → Except PathFault (List Nat × Node)
  | [] => return ([], n)
  | step :: rest => do
    let module ← stepModule model source step
    let place := Node.childPlace? (fun l => l.module = module) step.name n.children
    match place, place.bind (n.children[·]?) with
    | some place, some child =>
      let (address, target) ← follow model source child rest
      return (place :: address, target)
    | _, _ => .error (.nodeNotFound step.text)

/-- The node to which the path leads that is written in a source. -/
def locate (model : DeclaredModel) (f : Forest) (source : SourceId) (path : String) :
    Except PathFault Target :=
  match SchemaPath.steps? true path with
  | none | some [] => .error .malformed
  | some (first :: rest) => do
    let module ← stepModule model source first
    match f.root? module with
    | none => .error .unavailableModule
    | some root =>
      let (address, node) ← follow model source root (first :: rest)
      return ⟨module, address, node⟩

end Forest

end YangSchema
