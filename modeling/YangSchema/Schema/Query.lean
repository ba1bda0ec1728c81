import YangSchema.Schema

/-!
# Queries on schemas

Modules are found by identifier, name or namespace, and nodes by number, qualified name or path. A
found node knows its module, so that one can go on to its parent, its children and its type.
-/

namespace YangSchema

/-- A node of a schema in its module. -/
structure SchemaNode where
  module : Module
  row : Tree.Row NodeData

namespace Module

/-- The node of a number. -/
def node? (m : Module) (id : Nat) : Option SchemaNode := m.nodes[id]?.map fun row => ⟨m, row⟩

/-- The nodes of some numbers. -/
def nodesOf (m : Module) (ids : List Nat) : List SchemaNode := ids.filterMap m.node?

/-- The number of nodes. -/
def count (m : Module) : Nat := m.nodes.length

/-- The children of the root. -/
def topNodes (m : Module) : List SchemaNode :=
  match m.nodes.head? with
  | some root => m.nodesOf root.children
  | none => []

/-- The top-level statements of a kind. -/
def topLevel (m : Module) (kind : Kind) : List SchemaNode :=
  m.topNodes.filter fun n => n.row.label.kind? == some kind

/-- The top-level nodes of the data tree. -/
def dataChildren (m : Module) : List SchemaNode :=
  m.topNodes.filter fun n => n.row.label.qname.isSome

/-- All nodes. -/
def allNodes (m : Module) : List SchemaNode := m.nodes.map fun row => ⟨m, row⟩

end Module

namespace SchemaNode

/-- The number of a node in its module. -/
def id (n : SchemaNode) : Nat := n.row.id

/-- The qualified name of a node of the data tree. -/
def qname? (n : SchemaNode) : Option QName := n.row.label.qname

/-- The built-in kind of a node. -/
def kind? (n : SchemaNode) : Option Kind := n.row.label.kind?

/-- The parent of a node. -/
def parent? (n : SchemaNode) : Option SchemaNode := n.row.parent.bind n.module.node?

/-- The children of a node. -/
def children (n : SchemaNode) : List SchemaNode := n.module.nodesOf n.row.children

/-- The children of a node in the data tree. -/
def schemaChildren (n : SchemaNode) : List SchemaNode := n.children.filter (·.qname?.isSome)

/-- The first child of a qualified name. -/
def child? (n : SchemaNode) (q : QName) : Option SchemaNode :=
  n.children.find? fun c => c.qname? == some q

/-- The nodes below a node, every node before its children. They are numbered without a gap behind
the node and end before the first node that has no parent among them. -/
def descendants (n : SchemaNode) : List SchemaNode :=
  ((n.module.nodes.drop (n.id + 1)).takeWhile fun row => row.parent.any (n.id ≤ ·)).map
    fun row => ⟨n.module, row⟩

/-- The resolved type of a `type` node, or else that of the first `type` node below. -/
def effectiveType? (n : SchemaNode) : Option EffectiveType :=
  n.row.label.type.or
    ((n.children.find? fun c => c.kind? == some .type).bind (·.row.label.type))

end SchemaNode

namespace Schema

/-! ## Modules -/

/-- The module of an identifier. -/
def moduleById? (s : Schema) (id : SourceId) : Option Module := s.modules.find? fun m => m.id = id

/-- The latest module of a name. -/
def latestModule? (s : Schema) (name : String) : Option Module :=
  (s.modules.filter fun m => m.id.name == name).getLast?

/-- The module of a name with a revision, or else the latest. -/
def module? (s : Schema) (name : String) (revision : Option Revision) : Option Module :=
  match revision with
  | some r => s.moduleById? ⟨name, some r⟩
  | none => s.latestModule? name

/-- The modules of a namespace, the oldest first. -/
def modulesOfUri (s : Schema) (uri : String) : List Module := s.modules.filter fun m => m.uri == uri

/-! ## Nodes -/

/-- The nodes of a qualified name in all modules. -/
def findNodes (s : Schema) (q : QName) : List SchemaNode :=
  s.modules.flatMap fun m => m.allNodes.filter fun n => n.qname? == some q

/-- The first node of a qualified name. -/
def findNode? (s : Schema) (q : QName) : Option SchemaNode := (s.findNodes q).head?

/-- Goes down from a node along qualified names. -/
def descend? (n : SchemaNode) (path : List QName) : Option SchemaNode :=
  path.foldlM SchemaNode.child? n

/-- The node to which a path of qualified names leads. It starts at the top of the first module of
the namespace and the revision of its first name. -/
def findPath? (s : Schema) : List QName → Option SchemaNode
  | [] => none
  | q :: rest => do
    let m ← s.modules.find? fun m => m.uri == q.uri && m.id.revision == q.revision
    let top ← m.dataChildren.find? fun n => n.qname? == some q
    descend? top rest

end Schema

end YangSchema
