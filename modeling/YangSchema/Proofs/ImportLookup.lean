import YangSchema.Proofs.HeaderAgreement
import YangSchema.Proofs.KnownPaths
import YangSchema.Proofs.Prefixes
import YangSchema.Proofs.Registration
import YangSchema.Schema.Query

/-!
# Imports and looking up modules

A module can be picked twice by name and revision: from the headers, when an import is linked
(`Linkage.select?`), and from the modules of a schema, when somebody asks for one
(`Schema.module?`). The modules of a schema are those of the headers, in the same order
(`Schema.map_id_modules`), so both pick the same one (`Schema.map_id_module?`). Which one it is can
be said without either of them: the latest of those that are named.

What an import asks for is read twice, too: from its statement, when the header is read, and from
its declaration. Headers agree with declarations, so that every import statement is in the header
(`DeclaredModel.exists_import`) and gets what a look-up for it gives
(`Session.imports_agree_with_lookup`).
-/

namespace YangSchema

/-- An import statement asks for a module of a name, with a revision or the latest, and wants a
prefix to be bound to it. -/
structure Declaration.AsksFor (d : Declaration) (name boundPrefix : String)
    (wanted : Option Revision) : Prop where
  name : d.label.argument = some name
  boundPrefix : d.childArgument? .prefixStmt = some boundPrefix
  revision : (d.childArgument? .revisionDate).map Revision.ofString? = wanted.map some

namespace DeclaredModel

variable {order : Bool} {sources : List Source} {model : DeclaredModel} {source : Source}
  {s : DeclaredSource} {d : Declaration}

/-- Every import statement is in the header of its source. -/
theorem exists_import (declared : ofSources order sources = .ok model) (hs : s ∈ model.sources)
    (hsource : Declares source s) (hd : d ∈ s.root.subtrees) (himport : d.is .importStmt = true) :
    ∃ i ∈ s.header.imports, d.AsksFor i.module i.boundPrefix i.revision := by
  have himports := (agreesWith_of_declares declared hs hsource).imports
  obtain ⟨i, hi, hrestates⟩ :=
    exists_mem_of_forall₂ himports (List.mem_filter.2 ⟨hd, himport⟩)
  refine ⟨i, hi, hrestates.name, ?_, ?_⟩
  · rw [Declaration.childArgument?_eq_head?, hrestates.boundPrefix]
    rfl
  · have hdates := hrestates.revision
    rw [Declaration.childArgument?_eq_head?, Declaration.argumentsOf, List.head?_map]
    cases hwanted : i.revision with
    | none =>
      rw [hwanted] at hdates
      rw [List.map_eq_nil_iff.1 hdates]
      rfl
    | some r =>
      rw [hwanted] at hdates
      obtain ⟨c, hc, hdate⟩ := List.map_eq_singleton_iff.1 hdates
      obtain ⟨text, htext, hr⟩ := Option.bind_eq_some_iff.1 hdate
      rw [hc, List.head?_cons, Option.map_some, htext, Option.join_some, Option.map_some, hr]
      rfl

/-- An import selects just one module, and its prefix is bound to it. -/
theorem exists_selected (declared : ofSources order sources = .ok model) (hs : s ∈ model.sources)
    {i : Import} (hi : i ∈ s.header.imports) :
    ∃ m, Linkage.select? (model.sources.map (·.header)) true i.module i.revision = some m
      ∧ (∀ c, Linkage.Selects (model.sources.map (·.header)) true i.module i.revision c ↔ c = m)
      ∧ s.prefixTarget? i.boundPrefix = some m.id := by
  obtain ⟨headers, resolved, hresolved, hsorted, hnodup, hheaders, _, hlinked⟩ :=
    linked_of_ofSources declared
  obtain ⟨r, hr, hlink⟩ := hlinked s hs
  obtain ⟨h, _, hread⟩ := Result.exists_of_mem_mapM hresolved hr
  have hheader : s.header = h :=
    (Linkage.header_of_linkSource hlink).trans (Linkage.header_of_resolve hread)
  rw [hheader] at hi
  obtain ⟨imports, himports, hread⟩ := Result.bind_eq_ok.1 hread
  obtain ⟨_, _, hread⟩ := Result.bind_eq_ok.1 hread
  cases hread
  obtain ⟨p, hp, hbinding⟩ := Result.exists_mem_of_mapM himports hi
  obtain ⟨id, hid, hreturn⟩ := Result.bind_eq_ok.1 hbinding
  cases hreturn
  obtain ⟨m, hm, rfl⟩ := (Linkage.resolveImport_eq_ok hsorted hnodup).1 hid
  have hselect := (Linkage.select?_eq_some_iff hsorted hnodup).2 hm
  rw [hheaders]
  refine ⟨m, hselect, fun c => ?_, ?_⟩
  · rw [← Linkage.select?_eq_some_iff hsorted hnodup, hselect, Option.some.injEq, eq_comm]
  exact Linkage.lookup_of_linkSource hlink (List.mem_cons_of_mem _ hp)

end DeclaredModel

/-! ## Looking up modules -/

namespace Linkage

variable {headers headers' : List Header} {isModule : Bool} {name : String}
  {wanted : Option Revision} {h : Header}

theorem selects_congr (same : ∀ c, c ∈ headers ↔ c ∈ headers') :
    Selects headers isModule name wanted h ↔ Selects headers' isModule name wanted h := by
  have hnames : ∀ c, Names headers isModule name wanted c
      ↔ Names headers' isModule name wanted c := by
    intro c
    constructor
    · exact fun hc => { hc with registered := (same c).1 hc.registered }
    · exact fun hc => { hc with registered := (same c).2 hc.registered }
  constructor
  · exact fun hs => ⟨(hnames h).1 hs.toNames, fun c hc => hs.latest c ((hnames c).2 hc)⟩
  · exact fun hs => ⟨(hnames h).2 hs.toNames, fun c hc => hs.latest c ((hnames c).1 hc)⟩

/-- The identifier of a name with the revision that is wanted, or else the last one of the name. -/
def pick (ids : List SourceId) (name : String) : (wanted : Option Revision) → Option SourceId
  | some r => ids.find? fun id => id = ⟨name, some r⟩
  | none => (ids.filter fun id => id.name == name).getLast?

/-- Which module is selected is decided by identifiers alone. -/
theorem map_id_select? (headers : List Header) (name : String) (wanted : Option Revision) :
    (select? headers true name wanted).map (·.id)
      = pick ((headers.filter (·.isModule)).map (·.id)) name wanted := by
  have hcandidates : headers.filter (fun h => h.isModule == true && h.id.name == name)
      = (headers.filter (·.isModule)).filter fun h => h.id.name == name := by
    rw [List.filter_filter]
    simp only [beq_true, Bool.and_comm]
  unfold select?
  dsimp only
  rw [hcandidates]
  cases wanted with
  | none =>
    rw [pick, List.filter_map, List.getLast?_map]
    rfl
  | some r =>
    dsimp only
    rw [pick, List.find?_map, List.find?_filter]
    congr 2
    funext h
    rw [Bool.eq_iff_iff]
    simp [← SourceId.mk.injEq]

end Linkage

namespace Schema

variable {model : DeclaredModel} {schema : Schema}

theorem map_id_module? (schema : Schema) (name : String) (wanted : Option Revision) :
    (schema.module? name wanted).map (·.id)
      = Linkage.pick (schema.modules.map (·.id)) name wanted := by
  cases wanted with
  | none =>
    rw [module?, latestModule?, Linkage.pick, List.filter_map, List.getLast?_map]
    rfl
  | some r =>
    rw [module?, moduleById?, Linkage.pick, List.find?_map]
    rfl

/-- The modules of a schema are those of the model, in the same order. -/
theorem map_id_modules (built : ofModel model = .ok schema)
    (distinct : (model.modules.map (·.id)).Nodup) :
    schema.modules.map (·.id) = model.modules.map (·.id) := by
  obtain ⟨instantiated, augmented, deviated, hinstantiated, haugmented, hdeviated, rfl⟩ :=
    ofModel_eq_ok.1 built
  have hids := Augmentation.map_id_of_ofModel hinstantiated
  have hadded := (Augmentation.stage_of_applyAll (hids ▸ distinct) haugmented).map_id
  have hchanged : deviated.map (·.id) = augmented.map (·.id) :=
    Result.foldlM_invariant (P := fun f : Forest => f.map (·.id) = augmented.map (·.id))
      (fun _ _ _ hf happly => (Deviation.map_id_of_apply happly).trans hf) rfl hdeviated
  show (deviated.map (Module.ofTree model)).map (·.id) = _
  rw [List.map_map, ← hids, ← hadded, ← hchanged]
  rfl

end Schema

namespace Session

variable {settings : BuildSettings} {sources : List Source} {schema : Schema}

/-- **Imports and look-ups agree.** Whenever a build succeeds, every import statement of every
source asks for a module that is there just once: the one with the revision that it asks for, or
else the latest of the name. The prefix of the import is bound to this module, and it is the module
that the schema gives for the name and the revision. -/
theorem imports_agree_with_lookup (built : build ⟨settings, sources⟩ = .ok schema) :
    ∃ model headers, declare ⟨settings, sources⟩ = .ok model
      ∧ sources.mapM Header.ofSource = .ok headers ∧ (headers.map (·.id)).Nodup
      ∧ ∀ source ∈ sources, ∃ s ∈ model.sources, DeclaredModel.Declares source s
        ∧ ∀ d ∈ s.root.subtrees, Declaration.is d .importStmt = true →
          ∃ name boundPrefix wanted, Declaration.AsksFor d name boundPrefix wanted
            ∧ ∃ m, (∀ c, Linkage.Selects headers true name wanted c ↔ c = m)
              ∧ s.prefixTarget? boundPrefix = some m.id
              ∧ ∃ x, x.id = m.id ∧ schema.module? name wanted = some x
                ∧ (wanted = none → schema.latestModule? name = some x) := by
  obtain ⟨model, declared, hschema⟩ := Result.bind_eq_ok.1 built
  obtain ⟨headers, hread, hdistinct⟩ := DeclaredModel.nodup_of_ofSources declared
  obtain ⟨sorted, hperm, hdeclares⟩ := DeclaredModel.exists_declared declared
  refine ⟨model, headers, declared, hread, hdistinct, ?_⟩
  intro source hsource
  have hregistered := hperm.mem_iff.1 hsource
  obtain ⟨s, hs, hdeclared⟩ := DeclaredModel.exists_mem_of_declares hdeclares hregistered
  refine ⟨s, hs, hdeclared, ?_⟩
  intro d hd himport
  obtain ⟨i, hi, hasks⟩ := DeclaredModel.exists_import declared hs hdeclared hd himport
  obtain ⟨m, hselect, honly, htarget⟩ := DeclaredModel.exists_selected declared hs hi
  refine ⟨i.module, i.boundPrefix, i.revision, hasks, m, ?_, htarget, ?_⟩
  · -- the order of the headers makes no difference
    intro c
    rw [← honly c]
    apply Linkage.selects_congr
    intro h
    exact (DeclaredModel.perm_headers declared hread).mem_iff
  · have hids : schema.modules.map (·.id)
        = ((model.sources.map (·.header)).filter (·.isModule)).map (·.id) := by
      have hmodules : (model.modules.map (·.id)).Nodup :=
        (DeclaredModel.nodup_ids declared).sublist (List.filter_sublist.map _)
      rw [Schema.map_id_modules hschema hmodules, List.filter_map, List.map_map]
      rfl
    have hfound : (schema.module? i.module i.revision).map (·.id) = some m.id := by
      rw [Schema.map_id_module?, hids, ← Linkage.map_id_select?, hselect]
      rfl
    obtain ⟨x, hx, hid⟩ := Option.map_eq_some_iff.1 hfound
    refine ⟨x, hid, hx, ?_⟩
    intro hlatest
    rw [hlatest] at hx
    exact hx

/-- Two revisions of a module, and a module that imports the older one by its revision and the later
one without. -/
def importedRevisions : List Source :=
  [.bareModule "a" [.bare "revision" "2019-01-01" []],
    .bareModule "a" [.bare "revision" "2020-01-01" []],
    .bareModule "b" [
      .bare "import" "a" [.bare "prefix" "old" [], .bare "revision-date" "2019-01-01" []],
      .bare "import" "a" [.bare "prefix" "new" []]]]

/-- How they are linked. -/
def importedLinkage : Linkage :=
  let old : Option Revision := Revision.ofNumbers? 2019 1 1
  let a : SourceId := ⟨"a", old⟩
  let a' : SourceId := ⟨"a", Revision.ofNumbers? 2020 1 1⟩
  let b : SourceId := ⟨"b", none⟩
  let l : Location := .synthetic "bare"
  { sources := [
      ⟨⟨a, .module "a", .v1, "a", [], [], l⟩, a, [("a", a)]⟩,
      ⟨⟨a', .module "a", .v1, "a", [], [], l⟩, a', [("a", a')]⟩,
      ⟨⟨b, .module "b", .v1, "b", [⟨"a", "old", old, l⟩, ⟨"a", "new", none, l⟩], [], l⟩, b,
        [("b", b), ("new", a'), ("old", a)]⟩]
    families := [(a, [a]), (a', [a']), (b, [b])]
    graph := ⟨[a, a', b], [⟨b, a, .imports⟩, ⟨b, a', .imports⟩]⟩ }

theorem imports_agree_with_lookup_revisions : ∃ schema, build ⟨{}, importedRevisions⟩ = .ok schema
    ∧ ∃ model, declare ⟨{}, importedRevisions⟩ = .ok model
      ∧ ∀ source ∈ importedRevisions, ∃ s ∈ model.sources, DeclaredModel.Declares source s
        ∧ ∀ d ∈ s.root.subtrees, Declaration.is d .importStmt = true →
          ∃ name boundPrefix wanted, Declaration.AsksFor d name boundPrefix wanted
            ∧ ∃ x, schema.module? name wanted = some x
              ∧ s.prefixTarget? boundPrefix = some x.id := by
  have hdeclared : DeclaredModel.ofSources true importedRevisions
      = .ok (.ofLinkage importedLinkage importedRevisions) :=
    DeclaredModel.ofSources_eq_ofLinkage (by cbv) rfl (by cbv) (by decide +kernel)
  have hbuilds : (build ⟨{}, importedRevisions⟩).toBool = true := by
    have hbuild : build ⟨{}, importedRevisions⟩
        = Schema.ofModel (.ofLinkage importedLinkage importedRevisions) :=
      Result.bind_eq_of_ok hdeclared
    rw [hbuild]
    decide +kernel
  cases hbuilt : build ⟨{}, importedRevisions⟩ with
  | error e =>
    rw [hbuilt] at hbuilds
    cases hbuilds
  | ok schema =>
    obtain ⟨model, _, hmodel, _, _, hall⟩ := imports_agree_with_lookup hbuilt
    refine ⟨schema, rfl, model, hmodel, ?_⟩
    intro source hsource
    obtain ⟨s, hs, hdeclares, himports⟩ := hall source hsource
    refine ⟨s, hs, hdeclares, ?_⟩
    intro d hd himport
    obtain ⟨name, p, wanted, hasks, m, _, htarget, x, hid, hx, _⟩ := himports d hd himport
    exact ⟨name, p, wanted, hasks, x, hx, hid ▸ htarget⟩

end Session

end YangSchema
