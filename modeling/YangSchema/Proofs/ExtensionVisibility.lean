import YangSchema.Proofs.Binding
import YangSchema.Proofs.GroupingCycle
import YangSchema.Proofs.Ownership

/-!
# Where extensions can be used

A keyword with a prefix stands for an extension if a source that is owned by the module of the
prefix declares it (`Extensions.mem_ofSources_iff`). Every source of a module's family is meant to
declare extensions for the module, and a module owns such a source exactly if no later module has it
in its family (`Linkage.owner_eq_iff`). So what a module and its submodules declare can be used
wherever the module has a prefix (`Declaration.extension_keywords_bind`), except for what a
submodule declares that a later module shares: this can be used through the later one alone
(`Declaration.shared_extension_is_unknown`).
-/

namespace YangSchema

open Declaration (BindsTo IsInstance Offends)

variable {linked : List (LinkedSource × Statement)} {module : SourceId} {name p : String}

/-! ## Owners -/

namespace Linkage

variable {headers : List Header} {linkage : Linkage} {s : LinkedSource}
  {f : SourceId × List SourceId}

/-- A module owns a source of its family exactly if no later module has the source in its own. -/
theorem owner_eq_iff (sorted : headers.Pairwise fun a b => a.id.le b.id)
    (hok : ofHeaders headers = .ok linkage) (hs : s ∈ linkage.sources) (hf : f ∈ linkage.families)
    (hmem : s.header.id ∈ f.2) :
    s.owner = f.1 ↔ ∀ g ∈ linkage.families, s.header.id ∈ g.2 → g.1.le f.1 = true := by
  obtain ⟨hdistinct, hheaders⟩ := ofHeaders_eq_ok hok
  have distinct := nodup_of_checkDistinct sorted hdistinct
  obtain ⟨resolved, hresolved, hfamilies, hsources, _⟩ := steps_of_ofHeaders hok
  obtain ⟨r, _, hlink⟩ := Result.exists_of_mem_mapM hsources hs
  have howner := owner_of_linkSource hlink
  have hregistered : s.header ∈ headers := hheaders ▸ List.mem_map_of_mem hs
  cases hmodule : s.header.isModule with
  | true =>
    -- no family but its own holds a module
    have hown {g : SourceId × List SourceId} (hg : g ∈ linkage.families)
        (hin : s.header.id ∈ g.2) : s.header.id = g.1 := by
      rw [hfamilies] at hg
      obtain ⟨_, hmembers⟩ := mem_familiesOf hg
      rw [hmembers] at hin
      rcases submodule_of_mem_family hresolved hin with heq | ⟨h, hh, hfalse, hid⟩
      · exact heq
      · rw [List.inj_on_of_nodup_map distinct hh hregistered hid, hmodule] at hfalse
        cases hfalse
    rw [owner, if_pos hmodule] at howner
    refine iff_of_true ?_ fun g hg hin => ?_
    · rw [← Except.ok.inj howner, hown hf hmem]
    · rw [← hown hg hin, hown hf hmem]
      exact SourceId.le_refl _
  | false =>
    obtain ⟨m, hid, hcontributes⟩ :=
      exists_contributesTo sorted distinct hresolved hregistered hmodule howner
    rw [← hid]
    constructor
    · rintro heq g hg hin
      rw [← heq]
      exact hcontributes.latest g (hfamilies ▸ hg) hin
    · intro hlatest
      obtain ⟨g, hg, hgid, hin⟩ := hcontributes.held ⟨f, hfamilies ▸ hf, hmem⟩
      refine SourceId.le_antisymm ?_ (hcontributes.latest f (hfamilies ▸ hf) hmem)
      rw [← hgid]
      exact hlatest g (hfamilies ▸ hg) hin

/-- A module owns itself. -/
theorem owner_of_id_eq (sorted : headers.Pairwise fun a b => a.id.le b.id)
    (hok : ofHeaders headers = .ok linkage) (hs : s ∈ linkage.sources) (hf : f ∈ linkage.families)
    (hid : s.header.id = f.1) : s.owner = f.1 := by
  obtain ⟨hdistinct, hheaders⟩ := ofHeaders_eq_ok hok
  obtain ⟨resolved, hresolved, hfamilies, hsources, _⟩ := steps_of_ofHeaders hok
  obtain ⟨r, _, hlink⟩ := Result.exists_of_mem_mapM hsources hs
  rw [hfamilies] at hf
  obtain ⟨⟨q, hq, hmodule, hqid⟩, _⟩ := mem_familiesOf hf
  have hmem : q.header ∈ headers := headers_of_resolved hresolved ▸ List.mem_map_of_mem hq
  have hsame := List.inj_on_of_nodup_map (nodup_of_checkDistinct sorted hdistinct) hmem
    (hheaders ▸ List.mem_map_of_mem hs : s.header ∈ headers) (hqid.trans hid.symm)
  have howner := owner_of_linkSource hlink
  rw [owner, if_pos (hsame ▸ hmodule)] at howner
  rw [← hid, Except.ok.inj howner]

end Linkage

/-! ## Keywords -/

/-- Linking succeeds on a set of sources. It gives the sources in identifier order, each with its
statements, and the families of the modules. -/
def DeclaredModel.Links (sources : List Source) (linked : List (LinkedSource × Statement))
    (families : Families) : Prop :=
  ∃ pairs linkage, readHeaders sources = .ok pairs
    ∧ Linkage.ofHeaders (pairs.map (·.1)) = .ok linkage
    ∧ linked = linkage.sources.zip (pairs.map (·.2)) ∧ families = linkage.families

theorem DeclaredModel.Links.ofSources_eq_error {sources : List Source} {families : Families}
    {order : Bool} {e : Error} (h : Links sources linked families)
    (hdeclare : declare order linked = .error e) : ofSources order sources = .error e := by
  obtain ⟨pairs, linkage, hread, hlink, rfl, _⟩ := h
  rw [ofSources, Result.bind_eq_of_ok hread, Result.bind_eq_of_ok hlink, hdeclare]
  rfl

namespace Declaration

/-- In a source the keyword made of a prefix and a name stands for the extension of that name of a
module, wherever it is looked at. -/
structure CanUse (extensions : Extensions) (s : LinkedSource × Statement) (p : String)
    (module : SourceId) (name : String) : Prop where
  binds : ∀ l ∈ s.2.lineages, (∀ a ∈ l.1, ¬ IsInstance extensions s.1 a) →
    l.2.keyword = ⟨some p, name⟩ → BindsTo extensions s.1 l.2 (.extension module name)
  known : ∀ location, ofStatement extensions s.1 s.2
    ≠ .error (.unknownStatement s.1.header.id ⟨some p, name⟩ location)
  bound : ∀ d, ofStatement extensions s.1 s.2 = .ok d → ∀ r ∈ d.rows,
    r.label.keyword = ⟨some p, name⟩ → r.label.binding ≠ .uninterpreted →
    r.label.binding = .extension module name

variable {extensions : Extensions} {s : LinkedSource} {root : Statement} {head : Head} {b : Binding}

/-- A prefixed keyword stands for an extension of the module of the prefix, and for nothing else. -/
theorem bindsTo_prefixed_iff (hlookup : s.prefixes.lookup p = some module)
    (hkeyword : head.keyword = ⟨some p, name⟩) : BindsTo extensions s head b
      ↔ b = .extension module name ∧ (module, name) ∈ extensions := by
  constructor
  · rintro (⟨_, hplain, _, _⟩ | ⟨q, m, hqualifier, hmodule, hdeclared⟩)
    · rw [hkeyword] at hplain
      cases hplain
    · rw [hkeyword] at hqualifier hdeclared ⊢
      cases hqualifier
      cases hlookup.symm.trans hmodule
      exact ⟨rfl, hdeclared⟩
  · rintro ⟨rfl, hdeclared⟩
    have hidentifier : head.keyword.identifier = name := congrArg Keyword.identifier hkeyword
    rw [← hidentifier] at hdeclared ⊢
    exact .extension p module (congrArg Keyword.qualifier hkeyword) hlookup hdeclared

/-- What a module owns can be used where it has a prefix. -/
theorem canUse_of_mem (hlookup : s.prefixes.lookup p = some module)
    (hdeclared : (module, name) ∈ extensions) : CanUse extensions (s, root) p module name where
  binds l _ _ hkeyword := (bindsTo_prefixed_iff hlookup hkeyword).2 ⟨rfl, hdeclared⟩
  known location h := by
    have herror := (Result.error?_eq_some.2 h).symm.trans error?_ofStatement
    obtain ⟨l, _, hl⟩ := List.exists_of_findSome?_eq_some herror.symm
    obtain ⟨⟨_, hnone⟩, heq⟩ := offence?_eq_some.1 hl
    have hkeyword := (Error.unknownStatement.inj heq).2.1.symm
    exact hnone ⟨_, (bindsTo_prefixed_iff hlookup hkeyword).2 ⟨rfl, hdeclared⟩⟩
  bound d hd r hr hkeyword hne :=
    ((bindsTo_prefixed_iff hlookup hkeyword).1 ((encodes_of_ofStatement hd).bound r hr hne)).1

variable {sources : List Source} {families : Families}

/-- **An extension can be used wherever its module has a prefix.** Where sources are linked and a
prefix is bound to a module, a keyword with this prefix stands for the extension of the module that
has its name if some source declares it that the module owns, and otherwise for nothing. The module
owns itself, and of the submodules in its family those that are in the family of no later module;
all extensions that these declare can be used. -/
theorem extension_keywords_bind (hlinks : DeclaredModel.Links sources linked families) :
    ∀ s ∈ linked, ∀ p module name, s.1.prefixes.lookup p = some module →
      (∀ head b, head.keyword = ⟨some p, name⟩ → (BindsTo (.ofSources linked) s.1 head b
        ↔ b = .extension module name
          ∧ ∃ d ∈ linked, d.1.owner = module ∧ d.2.DeclaresExtension name))
      ∧ ∀ d ∈ linked, ∀ f ∈ families, f.1 = module → d.1.header.id ∈ f.2 →
        (d.1.owner = module ↔ ∀ g ∈ families, d.1.header.id ∈ g.2 → g.1.le module = true)
        ∧ (d.2.DeclaresExtension name →
          (d.1.header.id = module ∨ ∀ g ∈ families, d.1.header.id ∈ g.2 → g.1.le module = true) →
          CanUse (.ofSources linked) s p module name) := by
  obtain ⟨pairs, linkage, hread, hlink, rfl, rfl⟩ := hlinks
  have sorted := DeclaredModel.pairwise_readHeaders hread
  rintro s hs p _ name hlookup
  refine ⟨fun head b hkeyword => ?_, ?_⟩
  · rw [bindsTo_prefixed_iff hlookup hkeyword, Extensions.mem_ofSources_iff]
  · rintro d hd f hf rfl hmem
    have hsource := (List.of_mem_zip hd).1
    have hiff := Linkage.owner_eq_iff sorted hlink hsource hf hmem
    refine ⟨hiff, fun hdeclares hholds => ?_⟩
    have howner : d.1.owner = f.1 := by
      rcases hholds with hid | hlatest
      · exact Linkage.owner_of_id_eq sorted hlink hsource hf hid
      · exact hiff.2 hlatest
    exact canUse_of_mem hlookup (Extensions.mem_ofSources_iff.2 ⟨d, hd, howner, hdeclares⟩)

/-- Two revisions of a module, and one submodule between them that declares an extension. The older
revision uses it by the prefix of the newer one and by its own. -/
def sharedExtension : List Source :=
  let used (p : String) : Statement := ⟨⟨⟨some p, "e"⟩, some "x", .synthetic "bare"⟩, []⟩
  [.bareModule "a" [
      .bare "import" "a" [.bare "prefix" "p" [], .bare "revision-date" "2002-01-01" []],
      .bare "include" "s" [], .bare "revision" "2001-01-01" [], used "p", used "a"],
    .bareModule "a" [.bare "include" "s" [], .bare "revision" "2002-01-01" []],
    ⟨"s", .bare "submodule" "s" [.bare "belongs-to" "a" [.bare "prefix" "a" []],
      .bare "extension" "e" [.bare "argument" "n" []]]⟩]

/-- What linking makes of them. -/
def sharedExtensionLinked : List (LinkedSource × Statement) :=
  Expansion.sharedLinkage.sources.zip (sharedExtension.map (·.root))

theorem links_sharedExtension :
    DeclaredModel.Links sharedExtension sharedExtensionLinked Expansion.sharedLinkage.families :=
  ⟨(Expansion.sharedLinkage.sources.map (·.header)).zip (sharedExtension.map (·.root)),
    Expansion.sharedLinkage, by cbv, by cbv, rfl, rfl⟩

/-- The prefix of the newer revision can be used for the extension. -/
theorem extension_keywords_bind_latest :
    DeclaredModel.Links sharedExtension sharedExtensionLinked Expansion.sharedLinkage.families
    ∧ ∃ s ∈ sharedExtensionLinked, ∃ d ∈ sharedExtensionLinked,
      ∃ f ∈ Expansion.sharedLinkage.families,
        s.1.header.id ≠ f.1 ∧ d.1.header.id ≠ f.1 ∧ d.1.header.id ∈ f.2
        ∧ d.2.DeclaresExtension "e" ∧ s.1.prefixes.lookup "p" = some f.1
        ∧ CanUse (.ofSources sharedExtensionLinked) s "p" f.1 "e" := by
  have hs : sharedExtensionLinked[0] ∈ sharedExtensionLinked := List.getElem_mem _
  have hd : sharedExtensionLinked[2] ∈ sharedExtensionLinked := List.getElem_mem _
  have hf : Expansion.sharedLinkage.families[1] ∈ Expansion.sharedLinkage.families :=
    List.getElem_mem _
  have hdeclares : (sharedExtensionLinked[2]).2.DeclaresExtension "e" := by decide +kernel
  have hmem : (sharedExtensionLinked[2]).1.header.id ∈ (Expansion.sharedLinkage.families[1]).2 := by
    decide +kernel
  have hlookup : (sharedExtensionLinked[0]).1.prefixes.lookup "p"
      = some (Expansion.sharedLinkage.families[1]).1 := by decide +kernel
  obtain ⟨_, hfamily⟩ := extension_keywords_bind links_sharedExtension _ hs "p" _ "e" hlookup
  have huse := (hfamily _ hd _ hf rfl hmem).2 hdeclares (.inr (by decide +kernel))
  exact ⟨links_sharedExtension, _, hs, _, hd, _, hf, by decide +kernel, by decide +kernel, hmem,
    hdeclares, hlookup, huse⟩

/-- By its own prefix the older revision does not get the extension that its submodule declares: the
newer one owns the submodule. -/
theorem shared_extension_is_unknown :
    DeclaredModel.Links sharedExtension sharedExtensionLinked Expansion.sharedLinkage.families
    ∧ (∃ s ∈ sharedExtensionLinked, ∃ d ∈ sharedExtensionLinked,
      ∃ f ∈ Expansion.sharedLinkage.families,
        d.1.header.id ∈ f.2 ∧ d.2.DeclaresExtension "e" ∧ s.1.prefixes.lookup "a" = some f.1
        ∧ ∃ l ∈ s.2.lineages, (∀ a ∈ l.1, ¬ IsInstance (.ofSources sharedExtensionLinked) s.1 a)
          ∧ l.2.keyword = ⟨some "a", "e"⟩
          ∧ ¬ ∃ b, BindsTo (.ofSources sharedExtensionLinked) s.1 l.2 b)
    ∧ DeclaredModel.ofSources true sharedExtension
      = .error (.unknownStatement ⟨"a", some ⟨2001, 1, 1, by decide⟩⟩ ⟨some "a", "e"⟩
        (.synthetic "bare")) := by
  have hs : sharedExtensionLinked[0] ∈ sharedExtensionLinked := List.getElem_mem _
  have hd : sharedExtensionLinked[2] ∈ sharedExtensionLinked := List.getElem_mem _
  have hf : Expansion.sharedLinkage.families[0] ∈ Expansion.sharedLinkage.families :=
    List.getElem_mem _
  have hoffence : ((sharedExtensionLinked[0]).2.lineages.find? fun l =>
      l.2.keyword == ⟨some "a", "e"⟩ && (offence? (bindKeyword (.ofSources sharedExtensionLinked)
        (sharedExtensionLinked[0]).1) l).isSome).isSome = true := by
    decide +kernel
  obtain ⟨l, hl⟩ := Option.isSome_iff_exists.1 hoffence
  have hfound := List.find?_some hl
  rw [Bool.and_eq_true, beq_iff_eq] at hfound
  obtain ⟨e, he⟩ := Option.isSome_iff_exists.1 hfound.2
  obtain ⟨⟨habove, hnone⟩, _⟩ := offence?_eq_some.1 he
  refine ⟨links_sharedExtension, ⟨_, hs, _, hd, _, hf, by decide +kernel, by decide +kernel,
    by decide +kernel, l, List.mem_of_find?_eq_some hl, habove, hfound.1, hnone⟩, ?_⟩
  refine links_sharedExtension.ofSources_eq_error (Result.error?_eq_some.1 ?_)
  decide +kernel

end Declaration

end YangSchema
