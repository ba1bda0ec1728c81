import YangSchema.SourceId

/-!
# The link graph

The link graph records how sources relate: who imports, includes or belongs to whom. There is at
most one link from a source to another; a later relation of the same two takes the place of an
earlier one.
-/

namespace YangSchema

/-- How a source relates to another. -/
inductive LinkKind where
  | imports
  | includes
  | belongsTo
  deriving Repr, DecidableEq, Inhabited

namespace LinkKind

/-- The statement that makes the relation. -/
def text : LinkKind → String
  | .imports => "import"
  | .includes => "include"
  | .belongsTo => "belongs-to"

/-- The line style of the relation in a drawing. -/
def lineStyle : LinkKind → String
  | .imports => "solid"
  | .includes => "bold"
  | .belongsTo => "dashed"

end LinkKind

/-- A relation between two sources. -/
structure Link where
  origin : SourceId
  target : SourceId
  kind : LinkKind
  deriving Repr, DecidableEq

/-- All sources in identifier order, and their relations. -/
structure LinkGraph where
  sources : List SourceId
  links : List Link
  deriving Repr, DecidableEq

namespace LinkGraph

/-- Records a relation. -/
def insertLink (l : Link) : List Link → List Link
  | [] => [l]
  | m :: ms =>
    if m.origin = l.origin ∧ m.target = l.target then l :: ms else m :: insertLink l ms

/-- The graph in which relations are recorded one after the other. -/
def ofLinks (sources : List SourceId) (links : List Link) : LinkGraph :=
  ⟨sources, links.foldl (fun ms l => insertLink l ms) []⟩

/-- The sources to which `id` has a relation of a kind, in identifier order. -/
def linksFrom (g : LinkGraph) (id : SourceId) (kind : LinkKind) : List SourceId :=
  SourceId.sort ((g.links.filter fun l => l.origin = id ∧ l.kind = kind).map (·.target))

/-- The sources that have a relation of a kind to `id`, in identifier order. -/
def linksTo (g : LinkGraph) (id : SourceId) (kind : LinkKind) : List SourceId :=
  SourceId.sort ((g.links.filter fun l => l.target = id ∧ l.kind = kind).map (·.origin))

/-! ## Drawing -/

/-- A text in plain quotes. -/
def inQuotes (s : String) : String := "\"" ++ s ++ "\""

/-- Whether a link does not come after another by the written forms of its two ends. -/
def lineLe (a b : Link) : Bool :=
  ((compare a.origin.text b.origin.text).then (compare a.target.text b.target.text)).isLE

/-- The line of a link in the drawing. -/
def dotLine (l : Link) : String :=
  "  " ++ inQuotes l.origin.text ++ " -> " ++ inQuotes l.target.text ++ " [label="
    ++ inQuotes l.kind.text ++ ", style=" ++ l.kind.lineStyle ++ "];\n"

/-- The graph in the DOT language. -/
def toDot (g : LinkGraph) : String :=
  "digraph ModuleGraph \x7b\n"
    ++ "  rankdir=LR;\n"
    ++ "  node [shape=box, style=rounded, fontname=\"Helvetica\", fontsize=10];\n\n"
    ++ String.join (g.sources.map fun id => "  " ++ inQuotes id.text ++ ";\n")
    ++ "\n"
    ++ String.join ((g.links.mergeSort lineLe).map dotLine)
    ++ "\x7d\n"

end LinkGraph

end YangSchema
