import YangSchema.Digraph
import YangSchema.Header
import YangSchema.Linkage.Graph

/-!
# Linkage

Linking settles what the sources of a set refer to. An import selects the module of the given name
with the requested revision, or the latest; an include selects a submodule likewise, which must
belong to the module of the including source. Includes must not form a cycle.

* The *family* of a module is the module and all submodules it includes, directly or through
  others, in identifier order.
* The *owner* of a source is the module to which it contributes: a module owns itself; a submodule
  is owned by the latest module whose family holds it, or else by the latest module of the name it
  belongs to.
* The *prefix table* of a source binds its own prefix to its owner and the prefixes of its imports
  to the imported modules.
-/

namespace YangSchema

/-- A source with its relations settled. -/
structure LinkedSource where
  header : Header
  /-- The module to which the source contributes. -/
  owner : SourceId
  /-- The modules to which prefixes are bound, by prefix in ascending order. -/
  prefixes : List (String × SourceId)
  deriving Repr, DecidableEq

/-- The modules, each with its family. -/
abbrev Families := List (SourceId × List SourceId)

/-- A set of sources with all relations settled, in identifier order. -/
structure Linkage where
  sources : List LinkedSource
  families : Families
  graph : LinkGraph
  deriving Repr, DecidableEq

namespace Linkage

/-! ## Selecting sources -/

/-- The source of the wanted role and name with the wanted revision, or the latest. The headers are
in identifier order. -/
def select? (headers : List Header) (isModule : Bool) (name : String)
    (revision : Option Revision) : Option Header :=
  let candidates := headers.filter fun h => h.isModule == isModule && h.id.name == name
  match revision with
  | some r => candidates.find? fun h => h.id.revision == some r
  | none => candidates.getLast?

/-- The module that an import selects. -/
def resolveImport (headers : List Header) (h : Header) (i : Import) : Result SourceId :=
  match select? headers true i.module i.revision with
  | some target => .ok target.id
  | none => .error (.linkage h.id (.importNotFound ⟨i.module, i.revision⟩ i.location))

/-- The submodule that an include selects. -/
def resolveInclude (headers : List Header) (h : Header) (i : Include) : Result SourceId :=
  match select? headers false i.submodule i.revision with
  | none => .error (.linkage h.id (.includeNotFound ⟨i.submodule, i.revision⟩ i.location))
  | some target =>
    if target.moduleName = h.moduleName then .ok target.id
    else .error (.linkage h.id
      (.foreignSubmodule target.id target.moduleName h.moduleName i.location))

/-- A header with the sources that its imports and includes select. -/
structure Resolved where
  header : Header
  /-- The prefixes of the imports with the imported modules. -/
  imports : List (String × SourceId)
  includes : List SourceId
  deriving Repr, DecidableEq

/-- Resolves the imports and then the includes of a source. -/
def resolve (headers : List Header) (h : Header) : Result Resolved := do
  let imports ← h.imports.mapM fun i => return (i.boundPrefix, ← resolveImport headers h i)
  let includes ← h.includes.mapM (resolveInclude headers h)
  return ⟨h, imports, includes⟩

/-! ## Checks on the whole set -/

/-- Refuses two sources with one identifier; sources of one identifier stand side by side. -/
def checkDistinct : List Header → Result Unit
  | a :: b :: rest =>
    if a.id = b.id then .error (.linkage b.id (.registeredTwice a.location b.location))
    else checkDistinct (b :: rest)
  | _ => .ok ()

/-- The sources that a source includes. -/
def includesOf (resolved : List Resolved) (id : SourceId) : List SourceId :=
  ((resolved.find? fun r => r.header.id = id).map (·.includes)).getD []

/-- The identifiers of the sources. -/
def identifiers (resolved : List Resolved) : List SourceId := resolved.map (·.header.id)

/-- Refuses a cycle of includes. -/
def checkIncludes (resolved : List Resolved) : Result Unit :=
  match Digraph.firstCycle? (identifiers resolved) (includesOf resolved) with
  | none => .ok ()
  | some cycle =>
    let members := SourceId.sort cycle
    .error (.linkage (members.headD default) (.includeCycle members))

/-! ## Families, owners and prefixes -/

/-- A module followed by the submodules it includes, directly or through others. -/
def family (resolved : List Resolved) (id : SourceId) : List SourceId :=
  let nodes := identifiers resolved
  let members := Digraph.closure (includesOf resolved) nodes (includesOf resolved id)
  id :: nodes.filter (· ∈ members)

/-- The families of all modules. -/
def familiesOf (resolved : List Resolved) : Families :=
  (resolved.filter (·.header.isModule)).map fun r =>
    (r.header.id, family resolved r.header.id)

/-- The module to which a source contributes. -/
def owner (headers : List Header) (families : Families) (h : Header) : Result SourceId :=
  if h.isModule then .ok h.id
  else
    match (families.filter fun f => h.id ∈ f.2).getLast? with
    | some f => .ok f.1
    | none =>
      match select? headers true h.moduleName none with
      | some m => .ok m.id
      | none => .error (.linkage h.id (.ownerNotFound h.moduleName))

/-- Adds bindings to a prefix table, refusing a prefix that is bound already. -/
def bindPrefixes (id : SourceId) (table : List (String × SourceId)) :
    List (String × SourceId) → Result (List (String × SourceId))
  | [] => .ok table
  | (p, target) :: rest =>
    if (table.lookup p).isSome then .error (.linkage id (.reboundPrefix p))
    else bindPrefixes id ((p, target) :: table) rest

/-- The prefix table of a source. -/
def prefixTable (owner : SourceId) (r : Resolved) : Result (List (String × SourceId)) := do
  let table ← bindPrefixes r.header.id [(r.header.ownPrefix, owner)] r.imports
  return table.mergeSort fun a b => (compare a.1 b.1).isLE

/-- Settles owner and prefix table of a source. -/
def linkSource (headers : List Header) (families : Families) (r : Resolved) :
    Result LinkedSource := do
  let owner ← owner headers families r.header
  return ⟨r.header, owner, ← prefixTable owner r⟩

/-- The relations made by import and include statements, source by source. -/
def statedLinks (resolved : List Resolved) : List Link :=
  resolved.flatMap fun r =>
    r.imports.map (fun i => ⟨r.header.id, i.2, .imports⟩)
      ++ r.includes.map fun target => ⟨r.header.id, target, .includes⟩

/-- The relations of submodules to their owners. -/
def ownerLinks (sources : List LinkedSource) : List Link :=
  (sources.filter fun s => !s.header.isModule).map fun s => ⟨s.header.id, s.owner, .belongsTo⟩

/-- Links a set of sources, given by their headers in identifier order. -/
def ofHeaders (headers : List Header) : Result Linkage := do
  checkDistinct headers
  let resolved ← headers.mapM (resolve headers)
  checkIncludes resolved
  let families := familiesOf resolved
  let sources ← resolved.mapM (linkSource headers families)
  let graph := .ofLinks (identifiers resolved) (statedLinks resolved ++ ownerLinks sources)
  return ⟨sources, families, graph⟩

end Linkage

end YangSchema
