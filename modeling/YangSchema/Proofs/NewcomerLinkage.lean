import YangSchema.Proofs.LinkRelations

/-!
# Linking with a newcomer

A *newcomer* is a module whose name no other source has (`Linkage.Newcomer`). Where the others can
be linked without it, they are linked with it in the same way: no reference of theirs can mean it,
for each of them names a source that is there without it. Nor does the newcomer include any of them,
as each of their submodules belongs to a module of theirs. So the links of the others are those of
the larger set, the newcomer left out (`Linkage.Newcomer.linked`).
-/

namespace YangSchema

/-- Two relations that relate the elements of a list to the same things do so on the part that both
deal with. -/
theorem filter_eq_of_forall₂ {α β : Type} {R R' : α → β → Prop} {p : α → Bool} {q : β → Bool}
    {as part : List α} {bs cs : List β} (hpart : as.filter p = part)
    (hR : List.Forall₂ R part bs) (hR' : List.Forall₂ R' as cs)
    (hsame : ∀ a ∈ part, ∀ b c, R a b → R' a c → c = b)
    (hpq : ∀ a ∈ as, ∀ c, R' a c → q c = p a) : cs.filter q = bs := by
  subst hpart
  induction hR' generalizing bs with
  | nil =>
    cases hR
    rfl
  | @cons a c as cs hac _ ih =>
    obtain ⟨ha, has⟩ := List.forall_mem_cons.1 hpq
    have hq := ha c hac
    by_cases hp : p a = true
    · rw [List.filter_cons_of_pos hp] at hR hsame
      rw [List.filter_cons_of_pos (hq.trans hp)]
      obtain ⟨ha, hrest⟩ := List.forall_mem_cons.1 hsame
      cases hR with
      | cons hab hR => rw [ha _ c hab hac, ih has hR hrest]
    · rw [List.filter_cons_of_neg hp] at hR hsame
      rw [List.filter_cons_of_neg (by rwa [hq])]
      exact ih has hR hsame

/-- What gives nothing can be left out. -/
theorem flatMap_filter_of_nil {α β : Type} {p : α → Bool} {g : α → List β} {as : List α}
    (h : ∀ a ∈ as, p a = false → g a = []) : (as.filter p).flatMap g = as.flatMap g := by
  induction as with
  | nil => rfl
  | cons a as ih =>
    obtain ⟨ha, has⟩ := List.forall_mem_cons.1 h
    rw [List.filter_cons, List.flatMap_cons]
    split
    · rw [List.flatMap_cons, ih has]
    · rename_i hp
      rw [ha (Bool.eq_false_iff.2 hp), ih has, List.nil_append]

/-- Two ways to do a list give the same results on the part that both do. -/
theorem Result.filter_eq_of_mapM {α β : Type} {f g : α → Result β} {p : α → Bool} {q : β → Bool}
    {as part : List α} {bs cs : List β} (hpart : as.filter p = part) (hf : part.mapM f = .ok bs)
    (hg : as.mapM g = .ok cs) (hfg : ∀ a ∈ part, ∀ b, f a = .ok b → g a = .ok b)
    (hpq : ∀ a ∈ as, ∀ b, g a = .ok b → q b = p a) : cs.filter q = bs :=
  filter_eq_of_forall₂ hpart (mapM_eq_ok.1 hf) (mapM_eq_ok.1 hg)
    (fun a ha b _ hb hc => Except.ok.inj (hc.symm.trans (hfg a ha b hb))) hpq

namespace LinkGraph

variable {l : Link} {ls ls' ms : List Link} {id : SourceId} {ids ids' : List SourceId}
  {kind : LinkKind}

/-- Recording a link concerns the source at which it starts only. -/
theorem filter_origin_insertLink :
    (insertLink l ms).filter (fun l => l.origin = id)
      = if l.origin = id then insertLink l (ms.filter fun l => l.origin = id)
        else ms.filter fun l => l.origin = id := by
  induction ms with
  | nil => by_cases hl : l.origin = id <;> simp [insertLink, hl]
  | cons m ms ih =>
    by_cases hends : m.origin = l.origin ∧ m.target = l.target
    · rw [insertLink, if_pos hends]
      by_cases hl : l.origin = id
      · simp [hl, hends.1.trans hl, insertLink, hends.2]
      · simp [hl, hends.1 ▸ hl]
    · rw [insertLink, if_neg hends, List.filter_cons, List.filter_cons, ih]
      by_cases hm : m.origin = id
      · by_cases hl : l.origin = id
        · have htarget : m.target ≠ l.target := fun h => hends ⟨hm.trans hl.symm, h⟩
          simp [hl, hm, insertLink, htarget]
        · simp [hl, hm]
      · simp [hm]

theorem filter_origin_foldl_insertLink :
    (ls.foldl (fun ms l => insertLink l ms) ms).filter (fun l => l.origin = id)
      = (ls.filter fun l => l.origin = id).foldl (fun ms l => insertLink l ms)
          (ms.filter fun l => l.origin = id) := by
  induction ls generalizing ms with
  | nil => rfl
  | cons l ls ih =>
    rw [List.foldl_cons, ih, filter_origin_insertLink]
    by_cases hl : l.origin = id <;> simp [hl]

/-- What a source relates to depends on the links that start there. -/
theorem linksFrom_ofLinks_congr
    (hlinks : ls.filter (fun l => l.origin = id) = ls'.filter fun l => l.origin = id) :
    (ofLinks ids ls).linksFrom id kind = (ofLinks ids' ls').linksFrom id kind := by
  have hkind (ms : List Link) : ms.filter (fun l => l.origin = id ∧ l.kind = kind)
      = (ms.filter fun l => l.origin = id).filter fun l => l.kind = kind := by
    rw [List.filter_filter]
    apply List.filter_congr
    intro l _
    simp [and_comm]
  unfold linksFrom ofLinks
  rw [hkind, hkind, filter_origin_foldl_insertLink, filter_origin_foldl_insertLink, hlinks]

end LinkGraph

namespace Linkage

open Relation

variable {headers headers' : List Header} {u h s : Header} {resolved resolved' : List Resolved}
  {r : Resolved} {sources sources' : List LinkedSource} {name : String} {isModule : Bool}
  {wanted : Option Revision} {id a b : SourceId}

/-- The links that start at a source are stated by that source. -/
theorem filter_origin_statedLinks {p : Resolved → Bool}
    (hp : ∀ r ∈ resolved, r.header.id = id → p r = true) :
    (statedLinks (resolved.filter p)).filter (fun l => l.origin = id)
      = (statedLinks resolved).filter fun l => l.origin = id := by
  unfold statedLinks
  rw [List.filter_flatMap, List.filter_flatMap]
  apply flatMap_filter_of_nil
  intro r hr hother
  rw [List.filter_eq_nil_iff]
  intro l hl horigin
  rw [(mem_links_of_resolved.1 hl).1] at horigin
  rw [hp r hr (of_decide_eq_true horigin)] at hother
  cases hother

/-- A list of headers has one more than another: a module whose name no other source has. Both are
in identifier order. -/
structure Newcomer (headers : List Header) (u : Header) (headers' : List Header) : Prop where
  sorted : headers'.Pairwise fun a b => a.id.le b.id
  distinct : (headers'.map (·.id)).Nodup
  registered : u ∈ headers'
  isModule : u.isModule = true
  others : headers'.filter (fun h => h.id ≠ u.id) = headers
  name : ∀ h ∈ headers, h.id.name ≠ u.id.name

namespace Newcomer

section

variable (hu : Newcomer headers u headers')

include hu

theorem mem_iff : h ∈ headers ↔ h ∈ headers' ∧ h.id ≠ u.id := by
  rw [← hu.others, List.mem_filter, decide_eq_true_iff]

theorem id_ne (hh : h ∈ headers) : h.id ≠ u.id := (hu.mem_iff.1 hh).2

theorem eq_or_mem (hh : h ∈ headers') : h = u ∨ h ∈ headers := by
  by_cases hid : h.id = u.id
  · exact .inl (List.inj_on_of_nodup_map hu.distinct hh hu.registered hid)
  · exact .inr (hu.mem_iff.2 ⟨hh, hid⟩)

theorem sorted_others : headers.Pairwise fun a b => a.id.le b.id := by
  rw [← hu.others]
  exact hu.sorted.filter _

theorem distinct_others : (headers.map (·.id)).Nodup := by
  rw [← hu.others]
  exact hu.distinct.sublist (List.filter_sublist.map _)

/-! ### References of the others -/

/-- A reference by another name selects from the others. -/
theorem select?_eq (hname : name ≠ u.id.name) :
    select? headers' isModule name wanted = select? headers isModule name wanted := by
  have hcandidates : headers'.filter (fun h => h.isModule == isModule && h.id.name == name)
      = headers.filter fun h => h.isModule == isModule && h.id.name == name := by
    rw [← hu.others, List.filter_filter]
    apply List.filter_congr
    intro h _
    by_cases hid : h.id = u.id
    · simp [hid, Ne.symm hname]
    · simp [hid]
  unfold select?
  rw [hcandidates]

theorem selects_iff (hname : name ≠ u.id.name) :
    Selects headers' isModule name wanted s ↔ Selects headers isModule name wanted s := by
  rw [← select?_eq_some_iff hu.sorted hu.distinct,
    ← select?_eq_some_iff hu.sorted_others hu.distinct_others, hu.select?_eq hname]

theorem name_ne_of_selects (hs : Selects headers isModule name wanted s) : name ≠ u.id.name := by
  rw [← hs.name_eq]
  exact hu.name s hs.registered

/-- What is selected among the others is selected with the newcomer too. -/
theorem select?_of_some (hs : select? headers isModule name wanted = some s) :
    select? headers' isModule name wanted = some s := by
  have hselects := (select?_eq_some_iff hu.sorted_others hu.distinct_others).1 hs
  rw [hu.select?_eq (hu.name_ne_of_selects hselects), hs]

theorem resolve_of_ok (hr : resolve headers h = .ok r) : resolve headers' h = .ok r := by
  obtain ⟨imports, himports, hr⟩ := Result.bind_eq_ok.1 hr
  obtain ⟨includes, hincludes, hr⟩ := Result.bind_eq_ok.1 hr
  refine Result.bind_eq_ok.2 ⟨imports, ?_, Result.bind_eq_ok.2 ⟨includes, ?_, hr⟩⟩
  · apply Result.mapM_eq_ok.2
    apply (Result.mapM_eq_ok.1 himports).imp
    intro i p hp
    obtain ⟨target, htarget, hp⟩ := Result.bind_eq_ok.1 hp
    refine Result.bind_eq_ok.2 ⟨target, ?_, hp⟩
    unfold resolveImport at htarget ⊢
    split at htarget
    · rename_i m hm
      rw [hu.select?_of_some hm]
      exact htarget
    · cases htarget
  · apply Result.mapM_eq_ok.2
    apply (Result.mapM_eq_ok.1 hincludes).imp
    intro i target htarget
    unfold resolveInclude at htarget ⊢
    split at htarget
    · cases htarget
    · rename_i m hm
      rw [hu.select?_of_some hm]
      exact htarget

/-- The newcomer is in no other family: it is no submodule. -/
theorem not_mem_family (hresolved' : headers'.mapM (resolve headers') = .ok resolved')
    (ha : a ≠ u.id) : u.id ∉ family resolved' a := by
  intro hmem
  rcases submodule_of_mem_family hresolved' hmem with rfl | ⟨s, hs, hsubmodule, hid⟩
  · exact ha rfl
  · obtain rfl := List.inj_on_of_nodup_map hu.distinct hs hu.registered hid
    rw [hu.isModule] at hsubmodule
    cases hsubmodule

end

section

variable (hu : Newcomer headers u headers')
  (hresolved : headers.mapM (resolve headers) = .ok resolved)
  (hresolved' : headers'.mapM (resolve headers') = .ok resolved')

include hu hresolved hresolved'

theorem resolved_others : resolved'.filter (fun r => r.header.id ≠ u.id) = resolved := by
  refine Result.filter_eq_of_mapM hu.others hresolved hresolved' (fun h _ r hr => ?_)
    fun h _ r hr => ?_
  · exact hu.resolve_of_ok hr
  · rw [header_of_resolve hr]

/-! ### Includes and families -/

section

variable (hsources : resolved.mapM (linkSource headers (familiesOf resolved)) = .ok sources)

include hsources

/-- The newcomer includes nothing: a submodule of its name would lack a module among the others. -/
theorem not_includes : ¬ Includes headers' u.id b := by
  rintro ⟨h, hh, hid, i, hi, s, hs, rfl⟩
  obtain rfl := List.inj_on_of_nodup_map hu.distinct hh hu.registered hid
  obtain ⟨r, _, hr⟩ := Result.exists_mem_of_mapM hresolved' hu.registered
  obtain ⟨t, ht, hmodule⟩ := ((exists_resolve_eq_ok hu.sorted hu.distinct).1 ⟨r, hr⟩).2 i hi
  obtain rfl := hs.unique hu.distinct ht
  have hother : s ∈ headers := by
    rcases hu.eq_or_mem hs.registered with rfl | hother
    · have hrole := hs.role
      rw [hu.isModule] at hrole
      cases hrole
    · exact hother
  have hbelongs : s.belongsTo? = some h.id.name := by
    have hrole := hs.role
    rw [Header.moduleName, Header.moduleName, belongsTo?_eq_none_iff.2 hu.isModule] at hmodule
    cases hs' : s.belongsTo? with
    | none =>
      rw [belongsTo?_eq_none_iff.1 hs'] at hrole
      cases hrole
    | some name =>
      rw [hs'] at hmodule
      exact congrArg some hmodule
  obtain ⟨q, hq, hqs⟩ := Result.exists_mem_of_mapM hresolved hother
  obtain ⟨l, _, hl⟩ := Result.exists_mem_of_mapM hsources hq
  obtain ⟨o, ho, _⟩ := Result.bind_eq_ok.1 hl
  rw [header_of_resolve hqs] at ho
  obtain ⟨m, hm⟩ := (exists_owner_iff hu.sorted_others hu.distinct_others hresolved hother).1
    ⟨o, ho⟩ _ hbelongs
  exact hu.name m hm.registered hm.name_eq

/-- The includes are those of the others. -/
theorem includes_eq : Includes headers' = Includes headers := by
  funext a b
  apply propext
  constructor
  · intro hab
    obtain ⟨h, hh, rfl, i, hi, s, hs, rfl⟩ := id hab
    rcases hu.eq_or_mem hh with rfl | hother
    · exact absurd hab (hu.not_includes hresolved hresolved' hsources)
    · obtain ⟨r, _, hr⟩ := Result.exists_mem_of_mapM hresolved hother
      obtain ⟨t, ht, _⟩ :=
        ((exists_resolve_eq_ok hu.sorted_others hu.distinct_others).1 ⟨r, hr⟩).2 i hi
      exact ⟨h, hother, rfl, i, hi, s, (hu.selects_iff (hu.name_ne_of_selects ht)).1 hs, rfl⟩
  · rintro ⟨h, hh, rfl, i, hi, s, hs, rfl⟩
    exact ⟨h, (hu.mem_iff.1 hh).1, rfl, i, hi, s,
      (hu.selects_iff (hu.name_ne_of_selects hs)).2 hs, rfl⟩

/-- Families are as without the newcomer. -/
theorem family_eq : family resolved' a = family resolved a := by
  have hmembers (x : SourceId) :
      x ∈ (identifiers resolved').filter (· ∈ Digraph.closure (includesOf resolved')
          (identifiers resolved') (includesOf resolved' a))
        ↔ x ∈ (identifiers resolved).filter (· ∈ Digraph.closure (includesOf resolved)
          (identifiers resolved) (includesOf resolved a)) := by
    rw [mem_members_iff hu.sorted hu.distinct hresolved',
      mem_members_iff hu.sorted_others hu.distinct_others hresolved,
      hu.includes_eq hresolved hresolved' hsources]
  have hnodes : identifiers resolved = (identifiers resolved').filter (· ≠ u.id) := by
    rw [identifiers, identifiers, ← hu.resolved_others hresolved hresolved', List.filter_map]
    rfl
  unfold family
  dsimp only
  rw [hnodes] at hmembers ⊢
  generalize Digraph.closure _ _ (includesOf resolved' a) = members' at hmembers ⊢
  generalize Digraph.closure _ _ (includesOf resolved a) = members at hmembers ⊢
  rw [List.filter_filter]
  congr 1
  apply List.filter_congr
  intro x hx
  have hiff := hmembers x
  simp only [List.mem_filter, hx, true_and, decide_eq_true_iff] at hiff
  rw [Bool.eq_iff_iff, Bool.and_eq_true, decide_eq_true_iff, decide_eq_true_iff,
    decide_eq_true_iff, hiff, and_comm]

theorem familiesOf_others :
    (familiesOf resolved').filter (fun f => f.1 ≠ u.id) = familiesOf resolved := by
  rw [familiesOf, familiesOf, List.filter_map, ← hu.resolved_others hresolved hresolved',
    List.filter_filter, List.filter_filter]
  have hfamily : ∀ r ∈ resolved'.filter (fun r => r.header.isModule && decide (r.header.id ≠ u.id)),
      (r.header.id, family resolved' r.header.id)
        = (r.header.id, family (resolved'.filter fun r => r.header.id ≠ u.id) r.header.id) := by
    intro r _
    rw [hu.resolved_others hresolved hresolved', hu.family_eq hresolved hresolved' hsources]
  rw [← List.map_congr_left hfamily]
  congr 1
  apply List.filter_congr
  intro r _
  exact Bool.and_comm _ _

/-- The newcomer is alone in its family. -/
theorem family_newcomer : family resolved' u.id = [u.id] := by
  refine congrArg (u.id :: ·) (List.eq_nil_iff_forall_not_mem.2 ?_)
  intro b hb
  have hpath := (mem_members_iff hu.sorted hu.distinct hresolved').1 hb
  obtain ⟨c, hc, _⟩ := TransGen.head'_iff.1 hpath
  exact hu.not_includes hresolved hresolved' hsources hc

/-! ### Owners -/

theorem owner_of_ok (hh : h ∈ headers)
    (ho : owner headers (familiesOf resolved) h = .ok id) :
    owner headers' (familiesOf resolved') h = .ok id := by
  have hholders : (familiesOf resolved').filter (fun f => h.id ∈ f.2)
      = (familiesOf resolved).filter fun f => h.id ∈ f.2 := by
    rw [← hu.familiesOf_others hresolved hresolved' hsources, List.filter_filter]
    apply List.filter_congr
    rintro ⟨module, members⟩ hf
    obtain ⟨_, hmembers⟩ := mem_familiesOf hf
    by_cases hnew : module = u.id
    · rw [hnew, hu.family_newcomer hresolved hresolved' hsources] at hmembers
      simp [hnew, hmembers, hu.id_ne hh]
    · simp [hnew]
  unfold owner at ho ⊢
  rw [hholders]
  cases hmodule : h.isModule with
  | true =>
    rw [hmodule] at ho
    exact ho
  | false =>
    rw [hmodule, if_neg Bool.false_ne_true] at ho
    rw [if_neg Bool.false_ne_true]
    cases hlast : ((familiesOf resolved).filter fun f => h.id ∈ f.2).getLast? with
    | some f =>
      rw [hlast] at ho
      exact ho
    | none =>
      rw [hlast] at ho
      cases hselect : select? headers true h.moduleName none with
      | none =>
        rw [hselect] at ho
        cases ho
      | some m =>
        rw [hselect] at ho
        rw [hu.select?_of_some hselect]
        exact ho

theorem linkSource_of_ok {s : LinkedSource} (hr : r ∈ resolved)
    (hs : linkSource headers (familiesOf resolved) r = .ok s) :
    linkSource headers' (familiesOf resolved') r = .ok s := by
  obtain ⟨h, hh, hread⟩ := Result.exists_of_mem_mapM hresolved hr
  obtain ⟨o, ho, hs⟩ := Result.bind_eq_ok.1 hs
  rw [← header_of_resolve hread] at hh
  exact Result.bind_eq_ok.2 ⟨o, hu.owner_of_ok hresolved hresolved' hsources hh ho, hs⟩

/-! ### Linked sources and the link graph -/

section

variable (hsources' : resolved'.mapM (linkSource headers' (familiesOf resolved')) = .ok sources')

include hsources'

theorem sources_others : sources'.filter (fun s => s.header.id ≠ u.id) = sources := by
  refine Result.filter_eq_of_mapM (hu.resolved_others hresolved hresolved') hsources hsources'
    (fun r hr s hs => ?_) fun r _ s hs => ?_
  · exact hu.linkSource_of_ok hresolved hresolved' hsources hr hs
  · rw [header_of_linkSource hs]

/-- The links that start at another source are as without the newcomer. -/
theorem filter_links (hid : id ≠ u.id) :
    (statedLinks resolved' ++ ownerLinks sources').filter (fun l => l.origin = id)
      = (statedLinks resolved ++ ownerLinks sources).filter fun l => l.origin = id := by
  rw [List.filter_append, List.filter_append]
  congr 1
  · rw [← hu.resolved_others hresolved hresolved', filter_origin_statedLinks]
    rintro r _ rfl
    exact decide_eq_true hid
  · rw [← hu.sources_others hresolved hresolved' hsources hsources', ownerLinks, ownerLinks,
      List.filter_map, List.filter_map, List.filter_filter, List.filter_filter, List.filter_filter]
    congr 1
    apply List.filter_congr
    intro s _
    by_cases hs : s.header.id = u.id
    · simp [hs, Ne.symm hid]
    · simp [hs]

end

end

end

/-- Linking with the newcomer leaves the linked sources, the families and the imports of the others
as they are, and adds a family of the newcomer alone. -/
theorem linked {linkage linkage' : Linkage} (hu : Newcomer headers u headers')
    (hok : ofHeaders headers = .ok linkage) (hok' : ofHeaders headers' = .ok linkage') :
    linkage'.sources.filter (fun s => s.header.id ≠ u.id) = linkage.sources
      ∧ linkage'.families.filter (fun f => f.1 ≠ u.id) = linkage.families
      ∧ (u.id, [u.id]) ∈ linkage'.families
      ∧ (∀ f ∈ linkage.families, u.id ∉ f.2)
      ∧ ∀ id ≠ u.id, ∀ kind,
        linkage'.graph.linksFrom id kind = linkage.graph.linksFrom id kind := by
  obtain ⟨resolved, hresolved, hfamilies, hsources, hgraph⟩ := steps_of_ofHeaders hok
  obtain ⟨resolved', hresolved', hfamilies', hsources', hgraph'⟩ := steps_of_ofHeaders hok'
  have hothers := hu.familiesOf_others hresolved hresolved' hsources
  rw [hfamilies, hfamilies', hgraph, hgraph']
  refine ⟨hu.sources_others hresolved hresolved' hsources hsources', hothers, ?_, ?_, ?_⟩
  · obtain ⟨r, hr, hread⟩ := Result.exists_mem_of_mapM hresolved' hu.registered
    have hheader := header_of_resolve hread
    refine List.mem_map.2 ⟨r, List.mem_filter.2 ⟨hr, ?_⟩, ?_⟩
    · rw [hheader, hu.isModule]
    · rw [hheader, hu.family_newcomer hresolved hresolved' hsources]
  · rintro ⟨module, members⟩ hf
    rw [← hothers] at hf
    obtain ⟨hf, hne⟩ := List.mem_filter.1 hf
    obtain ⟨_, hmembers⟩ := mem_familiesOf hf
    rw [hmembers]
    exact hu.not_mem_family hresolved' (of_decide_eq_true hne)
  · intro id hid kind
    exact LinkGraph.linksFrom_ofLinks_congr
      (hu.filter_links hresolved hresolved' hsources hsources' hid)

end Newcomer

end Linkage

end YangSchema
