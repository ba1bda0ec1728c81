import YangSchema.Declaration.Binder
import YangSchema.Declaration.Check

/-!
# The declared model

The declared model of a set of sources holds, in identifier order, every source with its relations
settled and its statements bound and checked. `DeclaredModel.ofSources` builds it in steps, each
done for all sources before the next: headers, linkage, binding, checks. Where several sources are
at fault, the first in the order of the step is reported: the order of registration for headers,
the order of identifiers for the rest.
-/

namespace YangSchema

/-- A source whose statements are bound and checked. -/
structure DeclaredSource extends LinkedSource where
  root : Declaration

/-- The sources of a set, linked, bound and checked, in identifier order. -/
structure DeclaredModel where
  sources : List DeclaredSource
  families : Families
  graph : LinkGraph

namespace DeclaredSource

/-- The identifier of a source. -/
def id (s : DeclaredSource) : SourceId := s.header.id

/-- The module to which a prefix is bound in a source. -/
def prefixTarget? (s : DeclaredSource) (name : String) : Option SourceId := s.prefixes.lookup name

/-- The number of statements. -/
def count (s : DeclaredSource) : Nat := s.root.size

end DeclaredSource

namespace DeclaredModel

/-- The source of an identifier. -/
def source? (m : DeclaredModel) (id : SourceId) : Option DeclaredSource :=
  m.sources.find? fun s => s.id = id

/-- The sources of a family, the module first. -/
def family (m : DeclaredModel) (module : SourceId) : List DeclaredSource :=
  ((m.families.lookup module).getD []).filterMap m.source?

/-- The module sources, in identifier order. -/
def modules (m : DeclaredModel) : List DeclaredSource := m.sources.filter (·.header.isModule)

/-! ## Building -/

/-- Reads the headers of all sources and puts the sources in identifier order; sources of one
identifier keep their order. -/
def readHeaders (sources : List Source) : Result (List (Header × Statement)) := do
  let headers ← sources.mapM Header.ofSource
  return (headers.zip (sources.map (·.root))).mergeSort fun a b => a.1.le b.1

/-- Binds and then checks linked sources. -/
def declare (enforceOrder : Bool) (linked : List (LinkedSource × Statement)) :
    Result (List DeclaredSource) := do
  let extensions := Extensions.ofSources linked
  let bound ← linked.mapM fun s => return (s.1, ← Declaration.ofStatement extensions s.1 s.2)
  bound.forM fun s => Declaration.check s.1 enforceOrder s.2
  return bound.map fun s => ⟨s.1, s.2⟩

/-- The declared model of a set of sources; `enforceOrder` asks for the sections of modules in
their order. -/
def ofSources (enforceOrder : Bool) (sources : List Source) : Result DeclaredModel := do
  let pairs ← readHeaders sources
  let linkage ← Linkage.ofHeaders (pairs.map (·.1))
  let declared ← declare enforceOrder (linkage.sources.zip (pairs.map (·.2)))
  return ⟨declared, linkage.families, linkage.graph⟩

end DeclaredModel

end YangSchema
