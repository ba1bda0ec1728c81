import YangSchema.Schema.Augmentation
import YangSchema.Schema.Deviation
import YangSchema.Schema.QName

/-!
# Schemas

A schema is what a set of sources amounts to: for every module its effective nodes, numbered in
preorder, those of its submodules included, and how the sources relate.

The nodes on the way from the top of a module down through schema nodes alone form the data tree.
They, the root apart, have qualified names.
-/

namespace YangSchema

/-- What is known of a node of a schema apart from its number, parent and children. -/
structure NodeData extends NodeLabel where
  /-- The qualified name of a node of the data tree. -/
  qname : Option QName
  deriving Repr, Inhabited

/-- A module of a schema with its numbered nodes. -/
structure Module where
  id : SourceId
  uri : String
  ownPrefix : String
  version : Version
  submodules : List SourceId
  imports : List SourceId
  nodes : List (Tree.Row NodeData)

/-- The modules, in identifier order, and the relations of all sources. -/
structure Schema where
  modules : List Module
  graph : LinkGraph

namespace NodeData

/-- The built-in kind of a node. -/
def kind? (d : NodeData) : Option Kind := d.toNodeLabel.kind?

/-- The qualified name of a node in the data tree. -/
def qnameOf (model : DeclaredModel) (l : NodeLabel) : QName :=
  let owner := model.source? l.module
  ⟨(owner.bind (·.header.uri?)).getD "", l.module.revision, l.schemaName⟩

mutual

/-- Gives the nodes of the data tree their names; `inData` says that the parent is one of them. -/
def ofNode (name : NodeLabel → QName) (inData : Bool) : Node → Tree NodeData
  | ⟨l, children⟩ =>
    let inData := inData && l.isSchemaNode
    ⟨⟨l, if inData then some (name l) else none⟩, ofNodes name inData children⟩

/-- Gives names to the nodes of a list of trees. -/
def ofNodes (name : NodeLabel → QName) (inData : Bool) : List Node → List (Tree NodeData)
  | [] => []
  | n :: ns => ofNode name inData n :: ofNodes name inData ns

end

/-- Gives names to the nodes of a module, all but the root. -/
def ofRoot (name : NodeLabel → QName) (root : Node) : Tree NodeData :=
  ⟨⟨root.label, none⟩, ofNodes name true root.children⟩

end NodeData

namespace Module

/-- The module of a tree. -/
def ofTree (model : DeclaredModel) (t : ModuleTree) : Module :=
  let source := model.source? t.id
  { id := t.id
    uri := (source.bind (·.header.uri?)).getD ""
    ownPrefix := (source.map (·.header.ownPrefix)).getD ""
    version := (source.map (·.header.version)).getD .v1
    submodules := ((model.family t.id).drop 1).map (·.id)
    imports := model.graph.linksFrom t.id .imports
    nodes := (NodeData.ofRoot (NodeData.qnameOf model) t.root).rows }

end Module

namespace Schema

/-- The schema of the trees of all modules. -/
def ofForest (model : DeclaredModel) (f : Forest) : Schema :=
  ⟨f.map (Module.ofTree model), model.graph⟩

/-- The schema of a declared model: instantiates the modules and applies augments and then
deviations. -/
def ofModel (model : DeclaredModel) : Result Schema := do
  let f ← Forest.ofModel model
  let f ← Augmentation.applyAll model f
  let f ← Deviation.applyAll model f
  return ofForest model f

end Schema

end YangSchema
