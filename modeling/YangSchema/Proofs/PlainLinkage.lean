import YangSchema.Linkage
import YangSchema.Proofs.Plain

/-!
# Linking without locations

Headers keep the locations of imports, includes and root statements, for messages alone. What a
header says, and what linking makes of a set of headers, does not depend on them.
-/

namespace YangSchema

/-! ## Headers -/

/-- An import without its location. -/
def Import.plain (i : Import) : Import := { i with location := .nowhere }

/-- An include without its location. -/
def Include.plain (i : Include) : Include := { i with location := .nowhere }

/-- A source without its label and its locations. -/
def Source.plain (s : Source) : Source := ⟨"", s.root.map Head.plain⟩

namespace Header

/-- A header without its locations. -/
def plain (h : Header) : Header where
  id := h.id
  role := h.role
  version := h.version
  ownPrefix := h.ownPrefix
  imports := h.imports.map Import.plain
  includes := h.includes.map Include.plain
  location := .nowhere

variable (source : SourceId) (s : Statement)

theorem argument_plain : argument source (s.map Head.plain) = .plainError (argument source s) := by
  unfold argument
  rw [Statement.argument_plain, Statement.keyword_plain, Statement.location_plain]
  cases s.argument <;> rfl

theorem child_plain (name : String) :
    child source (s.map Head.plain) name = .plain (Tree.map Head.plain) (child source s name) := by
  unfold child
  rw [Statement.firstChild?_plain, Statement.keyword_plain, Statement.location_plain]
  cases s.firstChild? name <;> rfl

theorem childArgument_plain (name : String) :
    childArgument source (s.map Head.plain) name = .plainError (childArgument source s name) :=
  Result.plain_bind (child_plain source s name) (argument_plain source)

theorem revision_plain (text : String) : revision text = .plainError (revision text) := by
  unfold revision
  cases Revision.ofString? text <;> rfl

theorem revisionDate_plain : revisionDate (s.map Head.plain) = .plainError (revisionDate s) := by
  unfold revisionDate
  rw [Statement.bind_argument_firstChild?_plain]
  cases (s.firstChild? "revision-date").bind Statement.argument with
  | none => rfl
  | some text =>
    show (revision text).map some = Result.plainError ((revision text).map some)
    unfold revision
    cases Revision.ofString? text <;> rfl

theorem latestRevision_plain :
    latestRevision (s.map Head.plain) = .plainError (latestRevision s) := by
  unfold latestRevision
  rw [Statement.childrenNamed_plain, Statement.filterMap_argument_plain]
  exact Result.plain_bind (Result.plainError_mapM revision_plain _) fun _ => rfl

theorem roleAndPrefix_plain (isModule : Bool) :
    roleAndPrefix source (s.map Head.plain) isModule
      = .plainError (roleAndPrefix source s isModule) := by
  unfold roleAndPrefix
  cases isModule with
  | true =>
    apply Result.plain_bind (childArgument_plain source s "namespace")
    intro uri
    exact Result.plain_bind (childArgument_plain source s "prefix") fun _ => rfl
  | false =>
    apply Result.plain_bind (child_plain source s "belongs-to")
    intro belongs
    apply Result.plain_bind (argument_plain source belongs)
    intro owner
    exact Result.plain_bind (childArgument_plain source belongs "prefix") fun _ => rfl

theorem readImport_plain :
    readImport source (s.map Head.plain) = .plain Import.plain (readImport source s) := by
  unfold readImport
  apply Result.plain_bind (argument_plain source s)
  intro module
  apply Result.plain_bind (childArgument_plain source s "prefix")
  intro boundPrefix
  apply Result.plain_bind (revisionDate_plain s)
  intro revision
  rw [Statement.location_plain]
  rfl

theorem readInclude_plain :
    readInclude source (s.map Head.plain) = .plain Include.plain (readInclude source s) := by
  unfold readInclude
  apply Result.plain_bind (argument_plain source s)
  intro submodule
  apply Result.plain_bind (revisionDate_plain s)
  intro revision
  rw [Statement.location_plain]
  rfl

/-- Reads the header of a module, or else of a submodule. -/
def readAs (source : Source) (isModule : Bool) : Result Header := do
  let root := source.root
  let name ← match Statement.argument root with
    | some name => .ok name
    | none => .error (.identity (.unnamed source.origin (Statement.keyword root)))
  let id : SourceId := ⟨name, ← latestRevision root⟩
  let version ← match Statement.declaredVersion? root with
    | some v => .ok v
    | none => .error (.grammar id "yang-version" (Statement.location root) .unsupportedVersion)
  let (role, ownPrefix) ← roleAndPrefix id root isModule
  let imports ← (Statement.childrenNamed root "import").mapM (readImport id)
  let includes ← (Statement.childrenNamed root "include").mapM (readInclude id)
  return ⟨id, role, version, ownPrefix, imports, includes, Statement.location root⟩

theorem ofSource_eq (source : Source) : ofSource source =
    if Statement.isNamed "module" source.root then readAs source true
    else if Statement.isNamed "submodule" source.root then readAs source false
    else .error (.identity (.notAModule source.origin (Statement.keyword source.root))) := by
  unfold ofSource
  dsimp only
  cases Statement.isNamed "module" source.root with
  | true => rfl
  | false =>
    cases Statement.isNamed "submodule" source.root with
    | true => rfl
    | false => rfl

theorem readAs_plain (s : Source) (isModule : Bool) :
    readAs s.plain isModule = .plain Header.plain (readAs s isModule) := by
  unfold readAs Source.plain
  simp only [Statement.argument_plain, Statement.keyword_plain, Statement.declaredVersion?_plain,
    Statement.childrenNamed_plain, Statement.location_plain]
  cases Statement.argument s.root with
  | none => rfl
  | some name =>
    apply Result.plain_bind (latestRevision_plain s.root)
    intro revision
    cases Statement.declaredVersion? s.root with
    | none => rfl
    | some version =>
      apply Result.plain_bind (roleAndPrefix_plain _ s.root isModule)
      intro role
      apply Result.plain_bind (Result.plain_mapM (readImport_plain _) _)
      intro imports
      exact Result.plain_bind (Result.plain_mapM (readInclude_plain _) _) fun _ => rfl

theorem ofSource_plain (s : Source) : ofSource s.plain = .plain Header.plain (ofSource s) := by
  rw [ofSource_eq, ofSource_eq, readAs_plain, readAs_plain]
  unfold Source.plain
  rw [Statement.isNamed_plain, Statement.isNamed_plain, Statement.keyword_plain]
  split
  · rfl
  · split <;> rfl

end Header

/-! ## Linkage -/

/-- A linked source without locations. -/
def LinkedSource.plain (s : LinkedSource) : LinkedSource := { s with header := s.header.plain }

namespace Linkage

/-- A resolved header without locations. -/
def Resolved.plain (r : Resolved) : Resolved := { r with header := r.header.plain }

/-- Linked sources without locations. -/
def plain (l : Linkage) : Linkage := { l with sources := l.sources.map LinkedSource.plain }

variable (headers : List Header) (resolved : List Resolved) (families : Families)

theorem select?_plain (isModule : Bool) (name : String) (revision : Option Revision) :
    select? (headers.map Header.plain) isModule name revision
      = (select? headers isModule name revision).map Header.plain := by
  unfold select?
  rw [List.filter_map]
  cases revision with
  | none => exact List.getLast?_map
  | some r => exact List.find?_map

theorem resolveImport_plain (h : Header) (i : Import) :
    resolveImport (headers.map Header.plain) h.plain i.plain
      = .plainError (resolveImport headers h i) := by
  unfold resolveImport
  rw [select?_plain]
  dsimp only [Import.plain]
  cases select? headers true i.module i.revision <;> rfl

theorem resolveInclude_plain (h : Header) (i : Include) :
    resolveInclude (headers.map Header.plain) h.plain i.plain
      = .plainError (resolveInclude headers h i) := by
  unfold resolveInclude
  rw [select?_plain]
  dsimp only [Include.plain]
  cases select? headers false i.submodule i.revision with
  | none => rfl
  | some target => exact Result.plain_ite rfl rfl

theorem resolve_plain (h : Header) :
    resolve (headers.map Header.plain) h.plain = .plain Resolved.plain (resolve headers h) := by
  unfold resolve
  have himport (i : Import) : (resolveImport (headers.map Header.plain) h.plain i.plain
      >>= fun target => pure (i.plain.boundPrefix, target))
        = Result.plainError (resolveImport headers h i
          >>= fun target => pure (i.boundPrefix, target)) :=
    Result.plain_bind (resolveImport_plain headers h i) fun _ => rfl
  apply Result.plain_bind (Result.plain_mapM himport h.imports)
  intro imports
  apply Result.plain_bind (Result.plain_mapM (resolveInclude_plain headers h) h.includes)
  intro includes
  rw [List.map_id', List.map_id']
  rfl

theorem checkDistinct_plain : ∀ headers : List Header,
    checkDistinct (headers.map Header.plain) = .plainError (checkDistinct headers)
  | [] => rfl
  | [_] => rfl
  | a :: b :: rest => by
    rw [checkDistinct]
    exact Result.plain_ite rfl (checkDistinct_plain (b :: rest))

theorem identifiers_plain : identifiers (resolved.map Resolved.plain) = identifiers resolved :=
  List.map_map

theorem includesOf_plain : includesOf (resolved.map Resolved.plain) = includesOf resolved := by
  funext id
  unfold includesOf
  rw [List.find?_map, Option.map_map]
  rfl

theorem checkIncludes_plain :
    checkIncludes (resolved.map Resolved.plain) = .plainError (checkIncludes resolved) := by
  unfold checkIncludes
  rw [identifiers_plain, includesOf_plain]
  cases Digraph.firstCycle? (identifiers resolved) (includesOf resolved) <;> rfl

theorem familiesOf_plain : familiesOf (resolved.map Resolved.plain) = familiesOf resolved := by
  unfold familiesOf family
  rw [identifiers_plain, includesOf_plain, List.filter_map, List.map_map]
  rfl

theorem owner_plain (h : Header) :
    owner (headers.map Header.plain) families h.plain = .plainError (owner headers families h) := by
  have hid : h.plain.id = h.id := rfl
  have hname : h.plain.moduleName = h.moduleName := rfl
  unfold owner
  rw [hid, hname, select?_plain]
  apply Result.plain_ite
  · rfl
  · cases (families.filter fun f => h.id ∈ f.2).getLast? with
    | some f => rfl
    | none => cases select? headers true h.moduleName none <;> rfl

theorem bindPrefixes_plain (id : SourceId) (imports table : List (String × SourceId)) :
    bindPrefixes id table imports = .plainError (bindPrefixes id table imports) := by
  fun_induction bindPrefixes id table imports with
  | case1 table => rfl
  | case2 table p target rest bound => rfl
  | case3 table p target rest free ih => exact ih

theorem prefixTable_plain (owner : SourceId) (r : Resolved) :
    prefixTable owner r.plain = .plainError (prefixTable owner r) :=
  Result.plain_bind (bindPrefixes_plain r.header.id r.imports _) fun _ => rfl

theorem linkSource_plain (r : Resolved) : linkSource (headers.map Header.plain) families r.plain
    = .plain LinkedSource.plain (linkSource headers families r) := by
  apply Result.plain_bind (owner_plain headers families r.header)
  intro owner
  exact Result.plain_bind (prefixTable_plain owner r) fun _ => rfl

theorem statedLinks_plain : statedLinks (resolved.map Resolved.plain) = statedLinks resolved := by
  unfold statedLinks
  rw [List.flatMap_map]
  rfl

theorem ownerLinks_plain (sources : List LinkedSource) :
    ownerLinks (sources.map LinkedSource.plain) = ownerLinks sources := by
  unfold ownerLinks
  rw [List.filter_map, List.map_map]
  rfl

theorem ofHeaders_plain :
    ofHeaders (headers.map Header.plain) = .plain plain (ofHeaders headers) := by
  unfold ofHeaders
  apply Result.plain_bind (checkDistinct_plain headers)
  intro _
  apply Result.plain_bind (Result.plain_mapM (resolve_plain headers) headers)
  intro resolved
  apply Result.plain_bind (checkIncludes_plain resolved)
  intro _
  rw [familiesOf_plain]
  apply Result.plain_bind (Result.plain_mapM (linkSource_plain headers _) resolved)
  intro sources
  rw [identifiers_plain, statedLinks_plain, ownerLinks_plain]
  rfl

end Linkage

end YangSchema
