import YangSchema.Proofs.Freezing
import YangSchema.Proofs.ImportLookup
import YangSchema.Proofs.NewcomerForests
import YangSchema.Session

/-!
# Adding an unrelated module

A module of a new name, with no augments and no deviations of its own, can be added to sources that
can be built without changing what becomes of them: if the sources can still be built, every module
that there was before is in the new schema as it was in the old one
(`Session.newcomer_changes_nothing_else`). The module may import others and use what they define.
-/

namespace YangSchema

/-! ## Names of nodes -/

namespace NodeData

variable {name name' : NodeLabel → QName} {inData : Bool} {n : Node}

/-- Names are given to a tree by what its labels are called. -/
theorem ofNode_congr (h : n.All fun l => name l = name' l) :
    ofNode name inData n = ofNode name' inData n := by
  induction n using Tree.induct generalizing inData with
  | step n ih =>
    obtain ⟨hlabel, hchildren⟩ := Tree.all_iff.1 h
    rw [ofNode_eq, ofNode_eq, hlabel]
    exact congrArg (Tree.mk _) (List.map_congr_left fun c hc => ih c hc (hchildren c hc))

theorem ofRoot_congr (h : n.All fun l => name l = name' l) : ofRoot name n = ofRoot name' n := by
  obtain ⟨_, hchildren⟩ := Tree.all_iff.1 h
  rw [ofRoot_eq, ofRoot_eq]
  exact congrArg (Tree.mk _) (List.map_congr_left fun c hc => ofNode_congr (hchildren c hc))

end NodeData

namespace DeclaredModel

variable {order : Bool} {sources sources' : List Source} {source : Source}
  {model model' : DeclaredModel} {u : SourceId} {f : Forest} {t : ModuleTree} {s : DeclaredSource}
  {kind : Kind}

/-! ## The statements of modules -/

/-- A module whose source has no statements of a kind at its top is declared without any. -/
theorem childrenOfKind_of_declares (hsource : Declares source s)
    (hmodule : source.root.isNamed "module" = true)
    (hnone : source.root.childrenNamed kind.keyword = []) : s.root.childrenOfKind kind = [] := by
  obtain ⟨extensions, hbound⟩ := hsource.bound
  have hroot : s.root.kind?.isSome = true := by
    have his : s.root.is .module = true := by
      rw [(Declaration.bindsTo_root hbound).is_iff, hsource.written]
      exact hmodule
    rw [beq_iff_eq.1 his]
    rfl
  have hnamed := Declaration.childrenNamed_written hbound (Tree.mem_subtrees_self _) hroot kind
  rw [hsource.written, hnone] at hnamed
  exact List.map_eq_nil_iff.1 hnamed.symm

/-- A declared source has the name of one that has been registered. -/
theorem exists_argument_eq (declared : ofSources order sources = .ok model)
    (hs : s ∈ model.sources) : ∃ v ∈ sources, v.root.argument = some s.id.name := by
  obtain ⟨headers, hheaders, _⟩ := nodup_of_ofSources declared
  have hheader : s.header ∈ headers :=
    (perm_headers declared hheaders).mem_iff.2 (List.mem_map_of_mem hs)
  obtain ⟨v, hv, hread⟩ := Result.exists_of_mem_mapM hheaders hheader
  exact ⟨v, hv, name_of_ofSource hread⟩

theorem exists_argument_of_modules {schema : Schema} {m : Module}
    (declared : ofSources order sources = .ok model) (hschema : Schema.ofModel model = .ok schema)
    (hm : m ∈ schema.modules) : ∃ v ∈ sources, v.root.argument = some m.id.name := by
  have hdistinct : (model.modules.map (·.id)).Nodup :=
    (nodup_ids declared).sublist (List.filter_sublist.map _)
  have hid : m.id ∈ model.modules.map (·.id) :=
    Schema.map_id_modules hschema hdistinct ▸ List.mem_map_of_mem hm
  obtain ⟨s, hs, hsm⟩ := List.mem_map.1 hid
  rw [← hsm]
  exact exists_argument_eq declared (List.mem_of_mem_filter hs)

/-- The `augment` and `deviation` statements of an instantiated module stand in sources of the
model. -/
theorem exists_source_of_statement (instantiated : Forest.ofModel model = .ok f)
    (hkind : Node.isGroupingContent (.builtin kind) = false) {n : Node}
    (hn : n ∈ f.flatMap (·.statements kind)) : ∃ s ∈ model.sources, s.id = n.label.source := by
  obtain ⟨t, ht, hn⟩ := List.mem_flatMap.1 hn
  obtain ⟨s, hs, _, _, hwritten, _⟩ :=
    Forest.exists_written_of_statements instantiated ht hn hkind
  exact ⟨s, mem_of_family hs, hwritten.source.symm⟩

namespace Newcomer

variable (hu : Newcomer model u model')

include hu

/-- The newcomer is the one source of its family. -/
theorem id_of_mem_family (declared' : ofSources order sources = .ok model')
    (hs : s ∈ model'.family u) : s.id = u := by
  obtain ⟨_, members, hmembers, hmem⟩ := (mem_family_iff declared').1 hs
  have hlookup := lookup_of_mem (nodup_families declared') hmembers
  rw [lookup_of_mem (nodup_families declared') hu.alone] at hlookup
  cases hlookup
  exact List.mem_singleton.1 hmem

omit hu in
/-- If the source of the newcomer has no statements of a kind at its top, the module that is
instantiated from it has none. -/
theorem statements_eq_nil {h : Header} (hu : Newcomer model h.id model')
    (declared' : ofSources order sources = .ok model')
    (instantiated' : Forest.ofModel model' = .ok f) (hsource : source ∈ sources)
    (hread : Header.ofSource source = .ok h) (hmodule : source.root.isNamed "module" = true)
    (hnone : source.root.childrenNamed kind.keyword = [])
    (hkind : Node.isGroupingContent (.builtin kind) = false) (ht : t ∈ f) (hid : t.id = h.id) :
    t.statements kind = [] := by
  obtain ⟨sorted, hperm, hdeclares⟩ := exists_declared declared'
  obtain ⟨s, hs, hdeclared⟩ := exists_mem_of_declares hdeclares (hperm.mem_iff.1 hsource)
  have hheader : s.header = h := Except.ok.inj (hdeclared.header.symm.trans hread)
  rw [List.eq_nil_iff_forall_not_mem]
  intro n hn
  obtain ⟨w, hw, d, hd, _, hdkind, _⟩ :=
    Forest.exists_written_of_statements instantiated' ht hn hkind
  rw [hid] at hw
  have hws : w = s := by
    apply eq_of_id_eq declared' (mem_of_family hw) hs
    rw [hu.id_of_mem_family declared' hw, ← hheader]
    rfl
  have hmem : d ∈ s.root.childrenOfKind kind := List.mem_filter.2 ⟨hws ▸ hd, beq_iff_eq.2 hdkind⟩
  rw [childrenOfKind_of_declares hdeclared hmodule hnone] at hmem
  exact List.not_mem_nil hmem

/-! ## Freezing -/

/-- A tree whose nodes live in other modules becomes the same module. -/
theorem ofTree_eq (hid : t.id ≠ u) (hnodes : t.root.All fun l => l.module ≠ u) :
    Module.ofTree model' t = Module.ofTree model t := by
  have hnames : t.root.All fun l => NodeData.qnameOf model' l = NodeData.qnameOf model l := by
    intro l hl
    unfold NodeData.qnameOf
    rw [hu.source?_eq (hnodes l hl)]
  unfold Module.ofTree
  rw [hu.source?_eq hid, hu.family_eq hid, hu.links _ hid, NodeData.ofRoot_congr hnames]

/-- If the newcomer states no augments and no deviations, the other modules are instantiated,
augmented and deviated from as they are without it. -/
theorem hosts_of_ofModel {f g k f' g' k' : Forest} (declared : ofSources order sources = .ok model)
    (declared' : ofSources order sources' = .ok model')
    (haugments : ∀ t ∈ f', t.id = u → t.statements .augment = [])
    (hdeviations : ∀ t ∈ f', t.id = u → t.statements .deviation = [])
    (hf : Forest.ofModel model = .ok f) (hg : Augmentation.applyAll model f = .ok g)
    (hk : Deviation.applyAll model g = .ok k) (hf' : Forest.ofModel model' = .ok f')
    (hg' : Augmentation.applyAll model' f' = .ok g') (hk' : Deviation.applyAll model' g' = .ok k') :
    Forest.Hosts u k k' := by
  have hinstantiated : Forest.Hosts u f f' := hu.filter_ofModel hf hf'
  obtain ⟨hsame, _⟩ := Deviation.stage_of_ofModel declared hf hg hk
  obtain ⟨hsame', _⟩ := Deviation.stage_of_ofModel declared' hf' hg' hk'
  refine hu.applyDeviations declared
    (hu.applyAugments declared hinstantiated ?_ haugments hg hg') ?_ ?_ hk hk'
  · exact fun t ht a ha => exists_source_of_statement hf rfl (List.mem_flatMap.2 ⟨t, ht, ha⟩)
  · rw [hsame]
    exact fun d hd => exists_source_of_statement hf rfl hd
  · rw [hsame, hsame', hinstantiated.statements hdeviations]

theorem ne_of_mem_modules {m : SourceId} (hm : m ∈ model.modules.map (·.id)) : m ≠ u := by
  obtain ⟨s, hs, rfl⟩ := List.mem_map.1 hm
  exact hu.id_ne (List.mem_of_mem_filter hs)

/-- If the newcomer states no augments and no deviations, the other modules of the schema are as
they are without it. -/
theorem filter_modules {schema schema' : Schema} (declared : ofSources order sources = .ok model)
    (declared' : ofSources order sources' = .ok model')
    (hquiet : ∀ f', Forest.ofModel model' = .ok f' → ∀ kind ∈ [Kind.augment, .deviation],
      ∀ t ∈ f', t.id = u → t.statements kind = [])
    (h : Schema.ofModel model = .ok schema) (h' : Schema.ofModel model' = .ok schema') :
    schema'.modules.filter (fun m => m.id ≠ u) = schema.modules := by
  obtain ⟨f, hf, h⟩ := Result.bind_eq_ok.1 h
  obtain ⟨g, hg, h⟩ := Result.bind_eq_ok.1 h
  obtain ⟨k, hk, h⟩ := Result.bind_eq_ok.1 h
  cases h
  obtain ⟨f', hf', h'⟩ := Result.bind_eq_ok.1 h'
  obtain ⟨g', hg', h'⟩ := Result.bind_eq_ok.1 h'
  obtain ⟨k', hk', h'⟩ := Result.bind_eq_ok.1 h'
  cases h'
  have hhosts : k'.filter ((fun m => decide (m.id ≠ u)) ∘ Module.ofTree model') = k :=
    hu.hosts_of_ofModel declared declared' (hquiet f' hf' .augment (by decide))
      (hquiet f' hf' .deviation (by decide)) hf hg hk hf' hg' hk'
  obtain ⟨_, hstage⟩ := Deviation.stage_of_ofModel declared hf hg hk
  have hids : k.map (·.id) = model.modules.map (·.id) :=
    hstage.map_id.trans (Augmentation.map_id_of_ofModel hf)
  show (k'.map (Module.ofTree model')).filter _ = k.map (Module.ofTree model)
  rw [List.filter_map, hhosts]
  refine List.map_congr_left fun t ht => hu.ofTree_eq ?_ ?_
  · exact hu.ne_of_mem_modules (hids ▸ List.mem_map_of_mem ht)
  · exact fun l hl => hu.ne_of_mem_modules (hstage.module_mem hf t ht l hl)

end Newcomer

end DeclaredModel

namespace Session

variable {sources sources' : List Source} {source : Source} {schema schema' : Schema}

/-- **A newcomer changes nothing else.** Let a schema be built from sources, and from the same
sources with another module among them, whose name no other source has and at whose top there are no
augments and no deviations. Then the modules of the second schema, but for the one of that name, are
those of the first, with their identifiers, namespaces, prefixes, versions, submodules, imports and
all their nodes. -/
theorem newcomer_changes_nothing_else (settings : BuildSettings)
    (hbuilt : build ⟨settings, sources⟩ = .ok schema) (hperm : sources'.Perm (source :: sources))
    (hbuilt' : build ⟨settings, sources'⟩ = .ok schema')
    (hmodule : source.root.isNamed "module" = true)
    (hname : ∀ v ∈ sources, v.root.argument ≠ source.root.argument)
    (haugment : source.root.childrenNamed "augment" = [])
    (hdeviation : source.root.childrenNamed "deviation" = []) :
    schema'.modules.filter (fun m => source.root.argument ≠ some m.id.name) = schema.modules := by
  obtain ⟨model, hdeclared, hschema⟩ := Result.bind_eq_ok.1 hbuilt
  obtain ⟨model', hdeclared', hschema'⟩ := Result.bind_eq_ok.1 hbuilt'
  have declared : DeclaredModel.ofSources settings.enforceOrder sources = .ok model := hdeclared
  have declared' : DeclaredModel.ofSources settings.enforceOrder (source :: sources) = .ok model' :=
    DeclaredModel.ofSources_perm _ hperm hdeclared'
  obtain ⟨u, hread, hu⟩ := DeclaredModel.newcomer_of_ofSources declared declared' hmodule hname
  have hquiet : ∀ f', Forest.ofModel model' = .ok f' → ∀ kind ∈ [Kind.augment, .deviation],
      ∀ t ∈ f', t.id = u.id → t.statements kind = [] := by
    intro f' hf' kind hkind t ht
    simp only [List.mem_cons, List.not_mem_nil, or_false] at hkind
    have hsource : source ∈ source :: sources := List.mem_cons_self
    rcases hkind with rfl | rfl
    · exact hu.statements_eq_nil declared' hf' hsource hread hmodule haugment rfl ht
    · exact hu.statements_eq_nil declared' hf' hsource hread hmodule hdeviation rfl ht
  have hothers := hu.filter_modules declared declared' hquiet hschema hschema'
  -- the newcomer is the module of its name
  have hnames : ∀ m ∈ schema.modules, source.root.argument ≠ some m.id.name := by
    intro m hm
    obtain ⟨v, hv, hvname⟩ := DeclaredModel.exists_argument_of_modules declared hschema hm
    rw [← hvname]
    exact (hname v hv).symm
  rw [← hothers]
  apply List.filter_congr
  intro m hm
  rw [decide_eq_decide]
  constructor
  · intro hne hid
    rw [hid] at hne
    exact hne (DeclaredModel.name_of_ofSource hread)
  · intro hne
    apply hnames
    rw [← hothers]
    exact List.mem_filter.2 ⟨hm, decide_eq_true hne⟩

/-- A module with a grouping and a container, and one that adds a leaf to the container. -/
def groupedModules : List Source :=
  [.bareModule "a" [
      .bare "grouping" "g" [.bare "leaf" "x" [.bare "type" "string" []]],
      .bare "container" "c" []],
    .bareModule "b" [.bare "import" "a" [.bare "prefix" "p" []],
      .bare "augment" "/p:c" [.bare "leaf" "y" [.bare "type" "string" []]]]]

/-- A module that comes between the two and uses the grouping. -/
def groupingUser : Source :=
  .bareModule "aa" [.bare "import" "a" [.bare "prefix" "p" []],
    .bare "container" "d" [.bare "uses" "p:g" []]]

/-- How the three are linked. -/
def groupedLinkage : Linkage :=
  let a : SourceId := ⟨"a", none⟩
  let aa : SourceId := ⟨"aa", none⟩
  let b : SourceId := ⟨"b", none⟩
  let l : Location := .synthetic "bare"
  { sources := [
      ⟨⟨a, .module "a", .v1, "a", [], [], l⟩, a, [("a", a)]⟩,
      ⟨⟨aa, .module "aa", .v1, "aa", [⟨"a", "p", none, l⟩], [], l⟩, aa, [("aa", aa), ("p", a)]⟩,
      ⟨⟨b, .module "b", .v1, "b", [⟨"a", "p", none, l⟩], [], l⟩, b, [("b", b), ("p", a)]⟩]
    families := [(a, [a]), (aa, [aa]), (b, [b])]
    graph := ⟨[a, aa, b], [⟨aa, a, .imports⟩, ⟨b, a, .imports⟩]⟩ }

/-- The two modules are built, and so are all three; the two are the same in both schemas. -/
theorem newcomer_changes_nothing_else_grouped : ∃ schema schema',
    build ⟨{}, groupedModules⟩ = .ok schema
      ∧ build ⟨{}, groupedModules.insertIdx 1 groupingUser⟩ = .ok schema'
      ∧ schema'.modules.filter (fun m => m.id.name ≠ "aa") = schema.modules
      ∧ schema.modules.map (·.id.name) = ["a", "b"]
      ∧ schema'.modules.map (·.id.name) = ["a", "aa", "b"] := by
  obtain ⟨hdeclare, hschema⟩ :
    DeclaredModel.canDeclare DeclaredModel.augmentedLinkage groupedModules = true
    ∧ ((Schema.ofModel (.ofLinkage DeclaredModel.augmentedLinkage groupedModules)).toOption.map
      fun schema => schema.modules.map (·.id.name)) = some ["a", "b"] := by
    decide +kernel
  obtain ⟨hdeclare', hschema'⟩ :
    DeclaredModel.canDeclare groupedLinkage (groupedModules.insertIdx 1 groupingUser) = true
    ∧ ((Schema.ofModel (.ofLinkage groupedLinkage
        (groupedModules.insertIdx 1 groupingUser))).toOption.map
      fun schema => schema.modules.map (·.id.name)) = some ["a", "aa", "b"] := by
    decide +kernel
  have hbuild : ((build ⟨{}, groupedModules⟩).toOption.map fun schema =>
      schema.modules.map (·.id.name)) = some ["a", "b"] := by
    have hdeclared : DeclaredModel.ofSources true groupedModules
        = .ok (.ofLinkage DeclaredModel.augmentedLinkage groupedModules) :=
      DeclaredModel.ofSources_eq_ofLinkage (by cbv) rfl (by cbv) hdeclare
    have heq : build ⟨{}, groupedModules⟩
        = Schema.ofModel (.ofLinkage DeclaredModel.augmentedLinkage groupedModules) :=
      Result.bind_eq_of_ok hdeclared
    rw [heq]
    exact hschema
  have hbuild' : ((build ⟨{}, groupedModules.insertIdx 1 groupingUser⟩).toOption.map fun schema =>
      schema.modules.map (·.id.name)) = some ["a", "aa", "b"] := by
    have hdeclared : DeclaredModel.ofSources true (groupedModules.insertIdx 1 groupingUser)
        = .ok (.ofLinkage groupedLinkage (groupedModules.insertIdx 1 groupingUser)) :=
      DeclaredModel.ofSources_eq_ofLinkage (by cbv) rfl (by cbv) hdeclare'
    have heq : build ⟨{}, groupedModules.insertIdx 1 groupingUser⟩
        = Schema.ofModel (.ofLinkage groupedLinkage (groupedModules.insertIdx 1 groupingUser)) :=
      Result.bind_eq_of_ok hdeclared
    rw [heq]
    exact hschema'
  obtain ⟨schema, hbuilt, hnames⟩ := Option.map_eq_some_iff.1 hbuild
  obtain ⟨schema', hbuilt', hnames'⟩ := Option.map_eq_some_iff.1 hbuild'
  have hbuilt := Result.eq_ok_of_toOption hbuilt
  have hbuilt' := Result.eq_ok_of_toOption hbuilt'
  have hsame := newcomer_changes_nothing_else {} hbuilt (List.Perm.swap _ _ _) hbuilt'
    (by decide +kernel) (by decide +kernel) (by decide +kernel) (by decide +kernel)
  have hargument : groupingUser.root.argument = some "aa" := rfl
  refine ⟨schema, schema', hbuilt, hbuilt', ?_, hnames, hnames'⟩
  rw [← hsame]
  apply List.filter_congr
  intro m _
  rw [hargument, decide_eq_decide, ne_eq, ne_eq, Option.some.injEq, eq_comm]

end Session

end YangSchema
