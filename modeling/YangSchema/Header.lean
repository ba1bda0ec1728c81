import YangSchema.Source
import YangSchema.Error

/-!
# Headers

The header of a source is all that it says about itself and about the sources it refers to. It is
read from the root statement alone, before any keyword is bound: of several substatements with one
keyword the first counts, except for `revision`, of which the latest does.
-/

namespace YangSchema

/-- An `import` as it is written. -/
structure Import where
  module : String
  boundPrefix : String
  revision : Option Revision
  location : Location
  deriving Repr, DecidableEq

/-- An `include` as it is written. -/
structure Include where
  submodule : String
  revision : Option Revision
  location : Location
  deriving Repr, DecidableEq

/-- Whether a source is a module, with its namespace, or a submodule, with the name of its
module. -/
inductive Role where
  | module (uri : String)
  | submodule (owner : String)
  deriving Repr, DecidableEq

/-- What a source says about itself. -/
structure Header where
  id : SourceId
  role : Role
  version : Version
  /-- The prefix of the module, or that of the `belongs-to` statement. -/
  ownPrefix : String
  imports : List Import
  includes : List Include
  location : Location
  deriving Repr, DecidableEq

namespace Header

/-- Whether the source is a module. -/
def isModule (h : Header) : Bool :=
  match h.role with
  | .module _ => true
  | .submodule _ => false

/-- The namespace of a module. -/
def uri? (h : Header) : Option String :=
  match h.role with
  | .module uri => some uri
  | .submodule _ => none

/-- The name of the module to which a submodule belongs. -/
def belongsTo? (h : Header) : Option String :=
  match h.role with
  | .module _ => none
  | .submodule owner => some owner

/-- The name of the module to which a source contributes. -/
def moduleName (h : Header) : String := h.belongsTo?.getD h.id.name

/-! ## Reading -/

/-- The argument that a statement must have. -/
def argument (id : SourceId) (s : Statement) : Result String :=
  match s.argument with
  | some a => .ok a
  | none => .error (.grammar id s.keyword.text s.location .missingArgument)

/-- The substatement that a statement must have. -/
def child (id : SourceId) (s : Statement) (name : String) : Result Statement :=
  match s.firstChild? name with
  | some c => .ok c
  | none => .error (.grammar id s.keyword.text s.location (.missingSubstatement name))

/-- The argument of the substatement that a statement must have. -/
def childArgument (id : SourceId) (s : Statement) (name : String) : Result String := do
  argument id (← child id s name)

/-- A revision that must be well-formed. -/
def revision (text : String) : Result Revision :=
  match Revision.ofString? text with
  | some r => .ok r
  | none => .error (.date text)

/-- The revision that an `import` or `include` asks for. -/
def revisionDate (s : Statement) : Result (Option Revision) :=
  match (s.firstChild? "revision-date").bind (·.argument) with
  | some text => (revision text).map some
  | none => .ok none

/-- The latest of the revisions that a root statement lists. -/
def latestRevision (root : Statement) : Result (Option Revision) := do
  let listed ← ((root.childrenNamed "revision").filterMap (·.argument)).mapM revision
  return listed.foldl (fun latest r => laterRevision latest (some r)) none

/-- The role that a root statement plays, and the prefix it gives to its own module. -/
def roleAndPrefix (id : SourceId) (root : Statement) (isModule : Bool) :
    Result (Role × String) :=
  if isModule then do
    let uri ← childArgument id root "namespace"
    let own ← childArgument id root "prefix"
    return (.module uri, own)
  else do
    let belongs ← child id root "belongs-to"
    let owner ← argument id belongs
    let own ← childArgument id belongs "prefix"
    return (.submodule owner, own)

/-- Reads an `import`. -/
def readImport (id : SourceId) (s : Statement) : Result Import := do
  let module ← argument id s
  let boundPrefix ← childArgument id s "prefix"
  return ⟨module, boundPrefix, ← revisionDate s, s.location⟩

/-- Reads an `include`. -/
def readInclude (id : SourceId) (s : Statement) : Result Include := do
  let submodule ← argument id s
  return ⟨submodule, ← revisionDate s, s.location⟩

/-- Reads the header of a source. -/
def ofSource (source : Source) : Result Header := do
  let root := source.root
  let isModule ←
    if Statement.isNamed "module" root then .ok true
    else if Statement.isNamed "submodule" root then .ok false
    else .error (.identity (.notAModule source.origin (Statement.keyword root)))
  let name ← match Statement.argument root with
    | some name => .ok name
    | none => .error (.identity (.unnamed source.origin (Statement.keyword root)))
  let id : SourceId := ⟨name, ← latestRevision root⟩
  let version ← match Statement.declaredVersion? root with
    | some v => .ok v
    | none => .error (.grammar id "yang-version" (Statement.location root) .unsupportedVersion)
  let (role, ownPrefix) ← roleAndPrefix id root isModule
  let imports ← (Statement.childrenNamed root "import").mapM (readImport id)
  let includes ← (Statement.childrenNamed root "include").mapM (readInclude id)
  return ⟨id, role, version, ownPrefix, imports, includes, Statement.location root⟩

/-- Whether the identifier of `a` does not come after that of `b`. -/
def le (a b : Header) : Bool := a.id.le b.id

end Header

end YangSchema
