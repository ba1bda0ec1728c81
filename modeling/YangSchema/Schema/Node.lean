import YangSchema.Declaration
import YangSchema.SchemaPath
import YangSchema.Types.Effective

/-!
# Effective nodes

An effective node is a statement as it stands after all groupings have been expanded. It belongs to
the namespace of a module, which may differ from the source in which it was written, and remembers
how it came to where it is.
-/

namespace YangSchema

/-- The statement that makes a node conditional. -/
inductive ConditionKind where
  | when
  | ifFeature
  deriving Repr, DecidableEq

namespace ConditionKind

/-- The keyword of the statement. -/
def text : ConditionKind → String
  | .when => "when"
  | .ifFeature => "if-feature"

/-- The condition that a kind of statement states. -/
def ofKind? : Kind → Option ConditionKind
  | .when => some .when
  | .ifFeature => some .ifFeature
  | _ => none

end ConditionKind

/-- A condition on a node that the `uses` or `augment` states which has brought the node. -/
structure Condition where
  kind : ConditionKind
  expression : String
  /-- The source that states it. -/
  origin : SourceId
  deriving Repr, DecidableEq

/-- What is known of an effective node apart from its children. -/
structure NodeLabel extends Head where
  binding : Binding
  /-- The module in whose namespace the node lives. -/
  module : SourceId
  /-- The source in which the statement was written. -/
  source : SourceId
  /-- Whether an `augment` has brought the node. -/
  augmenting : Bool
  /-- Whether a `uses` has brought the node. -/
  addedByUses : Bool
  conditions : List Condition
  type : Option EffectiveType
  deriving Repr, Inhabited

/-- An effective node with its children. -/
abbrev Node := Tree NodeLabel

namespace NodeLabel

/-- The label of a declaration that is written in `source` and brought into `module`. -/
def ofDeclared (module source : SourceId) (addedByUses : Bool) (d : Declared) : NodeLabel where
  toHead := d.toHead
  binding := d.binding
  module := module
  source := source
  augmenting := false
  addedByUses := addedByUses
  conditions := []
  type := none

/-- The built-in kind of a node. -/
def kind? (l : NodeLabel) : Option Kind := l.binding.kind?

/-- Whether a node has a name in schema paths. -/
def isSchemaNode (l : NodeLabel) : Bool := l.kind?.any (·.isSchemaNode)

/-- The name of a node in schema paths: its argument, or the keyword of what has none. -/
def schemaName (l : NodeLabel) : String :=
  match l.kind? with
  | some .input | some .output => l.keyword.identifier
  | _ => l.argument.getD ""

end NodeLabel

namespace Node

/-- The built-in kind of a node. -/
def kind? (n : Node) : Option Kind := n.label.kind?

/-- Whether a node is of a built-in kind. -/
def is (n : Node) (kind : Kind) : Bool := n.kind? == some kind

/-- The name of a node in schema paths. -/
def schemaName (n : Node) : String := n.label.schemaName

/-- Whether a node has a name in schema paths. -/
def isSchemaNode (n : Node) : Bool := n.label.isSchemaNode

/-- The children that have names in schema paths. -/
def schemaChildren (n : Node) : List Node := n.children.filter isSchemaNode

/-- The children of a built-in kind. -/
def childrenOfKind (n : Node) (kind : Kind) : List Node := n.children.filter (is · kind)

/-- Copies a declaration, as it is, into `module`. -/
def ofDeclaration (module source : SourceId) (addedByUses : Bool) (d : Declaration) : Node :=
  d.map (NodeLabel.ofDeclared module source addedByUses)

/-! ## Content -/

/-- Whether a statement is copied from a grouping to where it is used. -/
def isGroupingContent (b : Binding) : Bool :=
  b.kind?.any fun k => k.isDataDefinition || k == .action || k == .notification

/-- Whether a statement is copied from an `augment` to its target. -/
def isAugmentContent (b : Binding) : Bool := isGroupingContent b || b.kind? == some .case

/-! ## Marks -/

/-- Adds conditions to a node, its children apart. -/
def addConditions (conditions : List Condition) (n : Node) : Node :=
  ⟨{ n.label with conditions := n.label.conditions ++ conditions }, n.children⟩

/-- Marks a node and all nodes below it as brought by an `augment`. -/
def markAugmenting (n : Node) : Node := n.map fun l => { l with augmenting := true }

/-- The condition that a statement states. -/
def conditionOf? (origin : SourceId) (binding : Binding) (head : Head) : Option Condition :=
  (binding.kind?.bind ConditionKind.ofKind?).map fun kind =>
    ⟨kind, head.argument.getD "", origin⟩

/-- The conditions that the substatements of a declaration state. -/
def conditionsOfDeclarations (origin : SourceId) (ds : List Declaration) : List Condition :=
  ds.filterMap fun d => conditionOf? origin d.label.binding d.label.toHead

/-- The conditions that the children of a node state. -/
def conditions (n : Node) : List Condition :=
  n.children.filterMap fun c => conditionOf? n.label.source c.label.binding c.label.toHead

/-! ## Finding nodes -/

/-- The place among the children of the schema node with a name that satisfies a condition. -/
def childPlace? (p : NodeLabel → Bool) (name : String) (ns : List Node) : Option Nat :=
  ns.findIdx? fun n => isSchemaNode n && schemaName n == name && p n.label

/-- The address that the names of a path give in a list of nodes. -/
def addressIn? (ns : List Node) : List Step → Option (List Nat)
  | [] => none
  | s :: rest => do
    let place ← childPlace? (fun _ => true) s.name ns
    let n ← ns[place]?
    if rest.isEmpty then return [place]
    else return place :: (← addressIn? n.children rest)

end Node

end YangSchema
