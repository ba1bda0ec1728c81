import YangSchema.CommandLine
import YangSchema.Schema.Json

/-!
# Reports

What the commands show of a schema.
-/

namespace YangSchema

namespace Report

/-! ## Modules -/

/-- The lines of a module: its identifier and namespace, its submodules, its imports. -/
def moduleLines (m : Module) : List String :=
  (m.id.text ++ "  " ++ m.uri)
    :: m.submodules.map (fun id => "    include " ++ id.text)
    ++ m.imports.map fun id => "    import  " ++ id.text

/-- The lines of all modules. -/
def modules (s : Schema) : List String := s.modules.flatMap moduleLines

/-! ## Data trees -/

/-- How a line shows that an `augment` or a `uses` has brought a node. -/
def markers (d : NodeData) : String :=
  (if d.augmenting then " +aug" else "") ++ if d.addedByUses then " +uses" else ""

/-- How a line shows the type of a node. -/
def typeText (n : SchemaNode) : String :=
  match n.effectiveType? with
  | some t => "  <" ++ t.name ++ ">"
  | none => ""

/-- The line of a node below `depth` others. -/
def nodeLine (depth : Nat) (n : SchemaNode) : String :=
  let d := n.row.label
  String.join (List.replicate depth "  ") ++ d.keyword.text ++ " " ++ d.argument.getD ""
    ++ typeText n ++ markers d

/-- How many nodes of the data tree are on the way from the top of a module to a node, itself
included. `fuel` bounds the length of the way. -/
def depth : (fuel : Nat) → SchemaNode → Nat
  | 0, _ => 0
  | fuel + 1, n =>
    match n.parent? with
    | some p => depth fuel p + 1
    | none => 0

/-- The lines of the data tree of a module. A node of the data tree comes before those below it. -/
def tree (m : Module) : List String :=
  ("module: " ++ m.id.text)
    :: (m.allNodes.filter (·.qname?.isSome)).map fun n => nodeLine (depth m.count n) n

/-! ## Checks -/

/-- How many modules and nodes there are, and the fingerprint. -/
def check (s : Schema) : List String := [
  "modules:     " ++ toString s.modules.length,
  "nodes:       " ++ toString ((s.modules.map (·.count)).foldl (· + ·) 0),
  "fingerprint: " ++ s.fingerprint]

/-- Lines as a text. -/
def ofLines (lines : List String) : String := String.join (lines.map (· ++ "\n"))

end Report

end YangSchema
