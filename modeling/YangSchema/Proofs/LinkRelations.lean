import Mathlib.Data.Set.Card
import YangSchema.Proofs.WellLinked

/-!
# What the link graph records

Sources relate to each other in three ways, which can be told from their headers: a source imports
and includes what its references select, and a submodule belongs to the module that owns it
(`Linkage.Relates`). The link graph holds one link for the two ends of a relation. So of two
relations with the same ends the later one is recorded, and only one pair of relations can have the
same ends: where a submodule imports the very module to which it belongs, this import is not
recorded. All other relations are (`Linkage.Recorded`, `Linkage.link_graph_records`).
-/

namespace YangSchema

namespace SourceId

/-- Identifiers in strictly ascending order. -/
def Ascending (ids : List SourceId) : Prop := ids.Pairwise fun a b => a.le b = true ∧ a ≠ b

theorem ascending_sort {ids : List SourceId} (distinct : ids.Nodup) : Ascending (sort ids) :=
  (pairwise_mergeSort (fun id => id) ids).and ((List.mergeSort_perm ids le).nodup_iff.2 distinct)

end SourceId

/-- The two ends by which a link is told from others. -/
def Link.ends (l : Link) : SourceId × SourceId := (l.origin, l.target)

namespace LinkGraph

variable {l m : Link} {ls ms : List Link} {g : LinkGraph} {id other : SourceId} {kind : LinkKind}

/-! ## Recording links -/

/-- Recording a link leaves its ends where they are, or adds them. -/
theorem map_ends_insertLink (l : Link) (ms : List Link) :
    (insertLink l ms).map Link.ends
      = if l.ends ∈ ms.map Link.ends then ms.map Link.ends else ms.map Link.ends ++ [l.ends] := by
  induction ms with
  | nil => simp [insertLink]
  | cons m ms ih =>
    rw [insertLink]
    by_cases hends : m.ends = l.ends
    · rw [if_pos (Prod.mk.injEq .. ▸ hends)]
      simp [hends]
    · rw [if_neg (fun h => hends (Prod.ext h.1 h.2)), List.map_cons, ih]
      have hne : ¬ l.ends = m.ends := fun h => hends h.symm
      simp only [List.map_cons, List.mem_cons, hne, false_or]
      split <;> rfl

theorem nodup_insertLink (distinct : (ms.map Link.ends).Nodup) :
    ((insertLink l ms).map Link.ends).Nodup := by
  rw [map_ends_insertLink]
  split
  · exact distinct
  · rename_i hnew
    rw [List.nodup_append_comm]
    exact List.nodup_cons.2 ⟨hnew, distinct⟩

/-- A link that is recorded takes the place of the one with the same ends. -/
theorem mem_insertLink_iff (distinct : (ms.map Link.ends).Nodup) :
    m ∈ insertLink l ms ↔ m = l ∨ m ∈ ms ∧ m.ends ≠ l.ends := by
  induction ms with
  | nil => simp [insertLink]
  | cons n ms ih =>
    obtain ⟨hn, hms⟩ := List.nodup_cons.1 distinct
    rw [insertLink]
    by_cases hends : n.ends = l.ends
    · rw [if_pos (Prod.mk.injEq .. ▸ hends)]
      -- no other link has these ends
      have hothers : ∀ k ∈ ms, k.ends ≠ l.ends := by
        intro k hk heq
        exact hn (List.mem_map.2 ⟨k, hk, heq.trans hends.symm⟩)
      simp only [List.mem_cons]
      constructor
      · rintro (rfl | hm)
        · exact .inl rfl
        · exact .inr ⟨.inr hm, hothers m hm⟩
      · rintro (rfl | ⟨rfl | hm, hne⟩)
        · exact .inl rfl
        · exact absurd hends hne
        · exact .inr hm
    · rw [if_neg (fun h => hends (Prod.ext h.1 h.2)), List.mem_cons, ih hms, List.mem_cons]
      constructor
      · rintro (rfl | rfl | ⟨hm, hne⟩)
        · exact .inr ⟨.inl rfl, hends⟩
        · exact .inl rfl
        · exact .inr ⟨.inr hm, hne⟩
      · rintro (rfl | ⟨rfl | hm, hne⟩)
        · exact .inr (.inl rfl)
        · exact .inl rfl
        · exact .inr (.inr ⟨hm, hne⟩)

/-- The links that are recorded one after the other have distinct ends. -/
theorem nodup_foldl_insertLink (distinct : (ms.map Link.ends).Nodup) :
    ((ls.foldl (fun ms l => insertLink l ms) ms).map Link.ends).Nodup := by
  induction ls generalizing ms with
  | nil => exact distinct
  | cons l ls ih => exact ih (nodup_insertLink distinct)

/-- Where the ends of links determine them, recording these links one after the other adds all of
them, and drops what had been recorded between their ends. -/
theorem mem_foldl_insertLink (distinct : (ms.map Link.ends).Nodup)
    (determined : ∀ a ∈ ls, ∀ b ∈ ls, a.ends = b.ends → a = b) :
    m ∈ ls.foldl (fun ms l => insertLink l ms) ms
      ↔ m ∈ ls ∨ m ∈ ms ∧ ∀ l ∈ ls, m.ends ≠ l.ends := by
  induction ls generalizing ms with
  | nil => simp
  | cons l ls ih =>
    have hrest := ih (nodup_insertLink (l := l) distinct) fun a ha b hb =>
      determined a (List.mem_cons_of_mem l ha) b (List.mem_cons_of_mem l hb)
    rw [List.foldl_cons, hrest, mem_insertLink_iff distinct]
    simp only [List.mem_cons, forall_eq_or_imp]
    constructor
    · rintro (hm | ⟨rfl | ⟨hm, hne⟩, hall⟩)
      · exact .inl (.inr hm)
      · exact .inl (.inl rfl)
      · exact .inr ⟨hm, hne, hall⟩
    · rintro ((rfl | hm) | ⟨hm, hne, hall⟩)
      -- the first link stays unless a later one has its ends, which is the same link then
      · by_cases hmem : m ∈ ls
        · exact .inl hmem
        · refine .inr ⟨.inl rfl, ?_⟩
          intro l hl heq
          have hsame := determined m List.mem_cons_self l (List.mem_cons_of_mem m hl) heq
          exact hmem (hsame ▸ hl)
      · exact .inl hm
      · exact .inr ⟨.inr ⟨hm, hne⟩, hall⟩

/-! ## Reading links -/

theorem mem_linksFrom_iff : other ∈ g.linksFrom id kind ↔ ⟨id, other, kind⟩ ∈ g.links := by
  simp only [linksFrom, SourceId.sort, List.mem_mergeSort, List.mem_map, List.mem_filter,
    decide_eq_true_iff]
  constructor
  · rintro ⟨l, ⟨hl, rfl, rfl⟩, rfl⟩
    exact hl
  · intro hl
    exact ⟨_, ⟨hl, rfl, rfl⟩, rfl⟩

theorem mem_linksTo_iff : other ∈ g.linksTo id kind ↔ ⟨other, id, kind⟩ ∈ g.links := by
  simp only [linksTo, SourceId.sort, List.mem_mergeSort, List.mem_map, List.mem_filter,
    decide_eq_true_iff]
  constructor
  · rintro ⟨l, ⟨hl, rfl, rfl⟩, rfl⟩
    exact hl
  · intro hl
    exact ⟨_, ⟨hl, rfl, rfl⟩, rfl⟩

/-- Links are told from each other by one end where this determines both. -/
theorem ascending_sort_map {p : Link → Prop} [DecidablePred p] {f : Link → SourceId}
    (both : SourceId → SourceId × SourceId) (hboth : ∀ l, p l → both (f l) = l.ends)
    (distinct : (ls.map Link.ends).Nodup) :
    SourceId.Ascending (SourceId.sort ((ls.filter p).map f)) := by
  apply SourceId.ascending_sort
  have hends : ((ls.filter p).map f).map both = (ls.filter p).map Link.ends := by
    rw [List.map_map]
    apply List.map_congr_left
    intro l hl
    exact hboth l (of_decide_eq_true (List.mem_filter.1 hl).2)
  apply List.Nodup.of_map both
  rw [hends]
  exact distinct.sublist (List.filter_sublist.map _)

theorem ascending_linksFrom (distinct : (g.links.map Link.ends).Nodup) :
    SourceId.Ascending (g.linksFrom id kind) :=
  ascending_sort_map (fun target => (id, target))
    (fun _ h => Prod.ext h.1.symm rfl) distinct

theorem ascending_linksTo (distinct : (g.links.map Link.ends).Nodup) :
    SourceId.Ascending (g.linksTo id kind) :=
  ascending_sort_map (fun origin => (origin, id))
    (fun _ h => Prod.ext rfl h.1.symm) distinct

end LinkGraph

namespace Linkage

open Relation

variable {headers : List Header} {h m : Header} {resolved : List Resolved} {linkage : Linkage}
  {l : Link} {a b o : SourceId} {kind : LinkKind}

/-! ## How sources relate -/

/-- A source imports another one: one of its imports selects it. -/
def Imports (headers : List Header) (a b : SourceId) : Prop :=
  ∃ h ∈ headers, h.id = a
    ∧ ∃ i ∈ h.imports, ∃ m, Selects headers true i.module i.revision m ∧ m.id = b

/-- A module holds a source that it includes, directly or through others. -/
structure Holds (headers : List Header) (m : Header) (id : SourceId) : Prop where
  registered : m ∈ headers
  isModule : m.isModule = true
  path : ReflTransGen (Includes headers) m.id id

/-- A submodule is owned by the latest of the modules that hold it or, where there is none, by the
latest of the name to which it belongs. -/
inductive OwnedBy (headers : List Header) (h m : Header) : Prop where
  | holder (holds : Holds headers m h.id) (latest : ∀ c, Holds headers c h.id → c.id.le m.id)
  | namesake (unheld : ∀ c, ¬ Holds headers c h.id)
      (selects : Selects headers true h.moduleName none m)

/-- A submodule belongs to the module that owns it. -/
def BelongsTo (headers : List Header) (a b : SourceId) : Prop :=
  ∃ h ∈ headers, h.id = a ∧ h.isModule = false ∧ ∃ m, OwnedBy headers h m ∧ m.id = b

/-- A source relates to another one. -/
def Relates (headers : List Header) : LinkKind → SourceId → SourceId → Prop
  | .imports => Imports headers
  | .includes => Includes headers
  | .belongsTo => BelongsTo headers

/-- The relations that are recorded: all but the import by a submodule of the module to which it
belongs. -/
def Recorded (headers : List Header) (kind : LinkKind) (a b : SourceId) : Prop :=
  Relates headers kind a b ∧ (kind = .imports → ¬ BelongsTo headers a b)

theorem OwnedBy.unique {n : Header} (hm : OwnedBy headers h m) (hn : OwnedBy headers h n) :
    m.id = n.id := by
  cases hm with
  | holder hm mlatest =>
    cases hn with
    | holder hn nlatest => exact SourceId.le_antisymm (nlatest m hm) (mlatest n hn)
    | namesake unheld _ => exact absurd hm (unheld m)
  | namesake unheld hm =>
    cases hn with
    | holder hn _ => exact absurd hn (unheld n)
    | namesake _ hn =>
      exact SourceId.le_antisymm (hn.latest m hm.toNames) (hm.latest n hn.toNames)

/-- Who owns a source is a module. -/
theorem OwnedBy.isModule (hm : OwnedBy headers h m) : m ∈ headers ∧ m.isModule = true := by
  cases hm with
  | holder hm _ => exact ⟨hm.registered, hm.isModule⟩
  | namesake _ hm => exact ⟨hm.registered, hm.role⟩

theorem module_of_relates (hrelates : Relates headers kind a b) (hkind : kind ≠ .includes) :
    ∃ m ∈ headers, m.id = b ∧ m.isModule = true := by
  cases kind with
  | imports =>
    obtain ⟨_, _, _, _, _, m, hm, hid⟩ := hrelates
    exact ⟨m, hm.registered, hid, hm.role⟩
  | includes => exact absurd rfl hkind
  | belongsTo =>
    obtain ⟨_, _, _, _, m, hm, hid⟩ := hrelates
    exact ⟨m, hm.isModule.1, hid, hm.isModule.2⟩

/-- What is included is no module. -/
theorem kind_eq_includes_iff (distinct : (headers.map (·.id)).Nodup) {kind' : LinkKind}
    (h : Relates headers kind a b) (h' : Relates headers kind' a b) :
    kind = .includes ↔ kind' = .includes := by
  have clash : ∀ {k}, Relates headers k a b → Relates headers .includes a b → k = .includes := by
    intro k hk hincludes
    by_contra hne
    obtain ⟨m, hm, hid, hmodule⟩ := module_of_relates hk hne
    obtain ⟨_, _, _, _, _, s, hs, hsid⟩ := hincludes
    obtain rfl := List.inj_on_of_nodup_map distinct hs.registered hm (hsid.trans hid.symm)
    rw [hs.role] at hmodule
    cases hmodule
  constructor
  · rintro rfl
    exact clash h' h
  · rintro rfl
    exact clash h h'

/-! ## Links of a linkage -/

/-- The links that a resolved source states. -/
theorem mem_links_of_resolved {r : Resolved} :
    l ∈ r.imports.map (fun i => ⟨r.header.id, i.2, .imports⟩)
        ++ r.includes.map (fun target => (⟨r.header.id, target, .includes⟩ : Link))
      ↔ l.origin = r.header.id ∧ (l.kind = .imports ∧ l.target ∈ r.imports.map (·.2)
        ∨ l.kind = .includes ∧ l.target ∈ r.includes) := by
  obtain ⟨origin, target, kind⟩ := l
  simp only [List.mem_append, List.mem_map, Link.mk.injEq]
  constructor
  · rintro (⟨i, hi, rfl, rfl, rfl⟩ | ⟨_, ht, rfl, rfl, rfl⟩)
    · exact ⟨rfl, .inl ⟨rfl, i, hi, rfl⟩⟩
    · exact ⟨rfl, .inr ⟨rfl, ht⟩⟩
  · rintro ⟨rfl, ⟨rfl, i, hi, rfl⟩ | ⟨rfl, ht⟩⟩
    · exact .inl ⟨i, hi, rfl, rfl, rfl⟩
    · exact .inr ⟨_, ht, rfl, rfl, rfl⟩

section Resolved

variable (sorted : headers.Pairwise fun a b => a.id.le b.id)
  (distinct : (headers.map (·.id)).Nodup)
  (hresolved : headers.mapM (resolve headers) = .ok resolved)

include sorted distinct hresolved

/-- The links that are stated are the imports and includes. -/
theorem mem_statedLinks_iff :
    l ∈ statedLinks resolved ↔ l.kind ≠ .belongsTo ∧ Relates headers l.kind l.origin l.target := by
  obtain ⟨origin, target, kind⟩ := l
  rw [statedLinks, List.mem_flatMap]
  constructor
  · rintro ⟨r, hr, hl⟩
    obtain ⟨h, hh, hread⟩ := Result.exists_of_mem_mapM hresolved hr
    have hheader := header_of_resolve hread
    obtain ⟨rfl, ⟨rfl, ht⟩ | ⟨rfl, ht⟩⟩ := mem_links_of_resolved.1 hl
    · exact ⟨LinkKind.noConfusion, h, hh, by rw [hheader],
        (mem_imports_iff sorted distinct hread).1 ht⟩
    · exact ⟨LinkKind.noConfusion, h, hh, by rw [hheader],
        (mem_includes_iff sorted distinct hread).1 ht⟩
  · rintro ⟨hkind, hrelates⟩
    cases kind with
    | imports =>
      obtain ⟨h, hh, rfl, hselected⟩ := hrelates
      obtain ⟨r, hr, hread⟩ := Result.exists_mem_of_mapM hresolved hh
      refine ⟨r, hr, mem_links_of_resolved.2 ⟨by rw [header_of_resolve hread], .inl ⟨rfl, ?_⟩⟩⟩
      exact (mem_imports_iff sorted distinct hread).2 hselected
    | includes =>
      obtain ⟨h, hh, rfl, hselected⟩ := hrelates
      obtain ⟨r, hr, hread⟩ := Result.exists_mem_of_mapM hresolved hh
      refine ⟨r, hr, mem_links_of_resolved.2 ⟨by rw [header_of_resolve hread], .inr ⟨rfl, ?_⟩⟩⟩
      exact (mem_includes_iff sorted distinct hread).2 hselected
    | belongsTo => exact absurd rfl hkind

/-- The families that have a source are those of the modules that hold it. -/
theorem mem_familiesOf_iff {f : SourceId × List SourceId} :
    f ∈ familiesOf resolved ∧ a ∈ f.2
      ↔ ∃ m, Holds headers m a ∧ f = (m.id, family resolved m.id) := by
  constructor
  · rintro ⟨hf, ha⟩
    obtain ⟨module, members⟩ := f
    obtain ⟨⟨r, hr, hmodule, hid⟩, hmembers⟩ := mem_familiesOf hf
    obtain ⟨m, hm, hread⟩ := Result.exists_of_mem_mapM hresolved hr
    rw [header_of_resolve hread] at hmodule hid
    rw [hmembers, ← hid, mem_family_iff_reflTransGen sorted distinct hresolved] at ha
    exact ⟨m, ⟨hm, hmodule, ha⟩, Prod.ext hid.symm (hmembers.trans (by rw [hid]))⟩
  · rintro ⟨m, hm, rfl⟩
    obtain ⟨r, hr, hread⟩ := Result.exists_mem_of_mapM hresolved hm.registered
    have hheader := header_of_resolve hread
    refine ⟨List.mem_map.2 ⟨r, List.mem_filter.2 ⟨hr, ?_⟩, ?_⟩, ?_⟩
    · rw [hheader]
      exact hm.isModule
    · rw [hheader]
    · exact (mem_family_iff_reflTransGen sorted distinct hresolved).2 hm.path

/-- The owner that is found for a submodule is the module that owns it. -/
theorem exists_ownedBy (hsubmodule : h.isModule = false)
    (howner : owner headers (familiesOf resolved) h = .ok o) :
    ∃ m, OwnedBy headers h m ∧ m.id = o := by
  have holder : ∀ f, f ∈ (familiesOf resolved).filter (fun f => h.id ∈ f.2)
      ↔ ∃ m, Holds headers m h.id ∧ f = (m.id, family resolved m.id) := by
    intro f
    rw [List.mem_filter, decide_eq_true_iff]
    exact mem_familiesOf_iff sorted distinct hresolved
  unfold owner at howner
  rw [if_neg (by rw [hsubmodule]; exact Bool.false_ne_true)] at howner
  cases hlast : ((familiesOf resolved).filter fun f => h.id ∈ f.2).getLast? with
  | some f =>
    rw [hlast] at howner
    cases howner
    -- the last family that has the source is that of the latest holder
    obtain ⟨m, hm, rfl⟩ := (holder f).1 (List.mem_of_getLast? hlast)
    refine ⟨m, .holder hm ?_, rfl⟩
    intro c hc
    have hordered := pairwise_familiesOf sorted hresolved
    have hrel := (hordered.filter fun f => h.id ∈ f.2).rel_getLast_of_rel_getLast_getLast
      ((holder _).2 ⟨c, hc, rfl⟩) (SourceId.le_refl _)
    rwa [(List.getLast_eq_iff_getLast?_eq_some _).2 hlast] at hrel
  | none =>
    rw [hlast] at howner
    have unheld : ∀ c, ¬ Holds headers c h.id := by
      intro c hc
      have hmem := (holder _).2 ⟨c, hc, rfl⟩
      rw [List.getLast?_eq_none_iff.1 hlast] at hmem
      exact absurd hmem List.not_mem_nil
    cases hselect : select? headers true h.moduleName none with
    | none =>
      rw [hselect] at howner
      cases howner
    | some m =>
      rw [hselect] at howner
      cases howner
      exact ⟨m, .namesake unheld (.of_select? sorted hselect), rfl⟩

variable {sources : List LinkedSource}
  (hsources : resolved.mapM (linkSource headers (familiesOf resolved)) = .ok sources)

include hsources

/-- A linked submodule belongs to its owner, and a linked module belongs to none. -/
theorem belongsTo_iff {s : LinkedSource} (hs : s ∈ sources) :
    BelongsTo headers s.header.id b ↔ s.header.isModule = false ∧ b = s.owner := by
  obtain ⟨r, hr, hlink⟩ := Result.exists_of_mem_mapM hsources hs
  obtain ⟨h, hh, hread⟩ := Result.exists_of_mem_mapM hresolved hr
  have hheader : s.header = h := by
    rw [header_of_linkSource hlink, header_of_resolve hread]
  have howner := owner_of_linkSource hlink
  rw [hheader] at howner ⊢
  constructor
  · rintro ⟨h', hh', hid, hsubmodule, m, hm, rfl⟩
    obtain rfl := List.inj_on_of_nodup_map distinct hh' hh hid
    obtain ⟨n, hn, hnid⟩ := exists_ownedBy sorted distinct hresolved hsubmodule howner
    exact ⟨hsubmodule, (hm.unique hn).trans hnid⟩
  · rintro ⟨hsubmodule, rfl⟩
    exact ⟨h, hh, rfl, hsubmodule, exists_ownedBy sorted distinct hresolved hsubmodule howner⟩

/-- The links to owners are those of submodules to the modules to which they belong. -/
theorem mem_ownerLinks_iff :
    l ∈ ownerLinks sources ↔ l.kind = .belongsTo ∧ BelongsTo headers l.origin l.target := by
  obtain ⟨origin, target, kind⟩ := l
  rw [ownerLinks, List.mem_map]
  constructor
  · rintro ⟨s, hs, heq⟩
    cases heq
    obtain ⟨hs, hsubmodule⟩ := List.mem_filter.1 hs
    refine ⟨rfl, (belongsTo_iff sorted distinct hresolved hsources hs).2 ⟨?_, rfl⟩⟩
    simpa using hsubmodule
  · rintro ⟨rfl, hbelongs⟩
    obtain ⟨h, hh, rfl, hsubmodule, _⟩ := id hbelongs
    obtain ⟨r, hr, hread⟩ := Result.exists_mem_of_mapM hresolved hh
    obtain ⟨s, hs, hlink⟩ := Result.exists_mem_of_mapM hsources hr
    have hheader : s.header = h := by
      rw [header_of_linkSource hlink, header_of_resolve hread]
    subst hheader
    obtain ⟨_, rfl⟩ := (belongsTo_iff sorted distinct hresolved hsources hs).1 hbelongs
    exact ⟨s, List.mem_filter.2 ⟨hs, by simp [hsubmodule]⟩, rfl⟩

/-- The links that end up in the graph are the relations that are recorded. -/
theorem mem_links_iff :
    l ∈ (LinkGraph.ofLinks (identifiers resolved)
        (statedLinks resolved ++ ownerLinks sources)).links
      ↔ Recorded headers l.kind l.origin l.target := by
  have hstated := fun l => mem_statedLinks_iff (l := l) sorted distinct hresolved
  have howners := fun l => mem_ownerLinks_iff (l := l) sorted distinct hresolved hsources
  have hempty : (([] : List Link).map Link.ends).Nodup := List.nodup_nil
  -- two links of one of the two groups have the same ends only if they are the same
  have stated : ∀ l ∈ statedLinks resolved, ∀ m ∈ statedLinks resolved, l.ends = m.ends →
      l = m := by
    rintro ⟨origin, target, kind⟩ hl ⟨origin', target', kind'⟩ hm hends
    obtain ⟨rfl, rfl⟩ := Prod.mk.inj hends
    obtain ⟨hkind, hrelates⟩ := (hstated _).1 hl
    obtain ⟨hkind', hrelates'⟩ := (hstated _).1 hm
    -- neither is a link to an owner, so both are imports or both are includes
    have hincludes := kind_eq_includes_iff distinct hrelates hrelates'
    cases kind <;> cases kind' <;> simp_all
  have owners : ∀ l ∈ ownerLinks sources, ∀ m ∈ ownerLinks sources, l.ends = m.ends → l = m := by
    rintro ⟨origin, target, kind⟩ hl ⟨origin', target', kind'⟩ hm hends
    obtain ⟨rfl, rfl⟩ := Prod.mk.inj hends
    obtain ⟨rfl, _⟩ := (howners _).1 hl
    obtain ⟨rfl, _⟩ := (howners _).1 hm
    rfl
  rw [LinkGraph.ofLinks, List.foldl_append]
  refine (LinkGraph.mem_foldl_insertLink (LinkGraph.nodup_foldl_insertLink hempty) owners).trans ?_
  rw [LinkGraph.mem_foldl_insertLink hempty stated, howners, hstated]
  simp only [List.not_mem_nil, false_and, or_false]
  obtain ⟨origin, target, kind⟩ := l
  constructor
  · rintro (⟨rfl, hbelongs⟩ | ⟨⟨_, hrelates⟩, hkept⟩)
    · exact ⟨hbelongs, LinkKind.noConfusion⟩
    · refine ⟨hrelates, fun _ hbelongs => ?_⟩
      exact hkept ⟨origin, target, .belongsTo⟩ ((howners _).2 ⟨rfl, hbelongs⟩) rfl
  · rintro ⟨hrelates, hforeign⟩
    by_cases hkind : kind = .belongsTo
    · subst hkind
      exact .inl ⟨rfl, hrelates⟩
    · refine .inr ⟨⟨hkind, hrelates⟩, ?_⟩
      rintro ⟨origin', target', kind'⟩ hm hends
      obtain ⟨rfl, rfl⟩ := Prod.mk.inj hends
      obtain ⟨rfl, hbelongs⟩ := (howners _).1 hm
      -- a link to an owner has the ends of no include, since it leads to a module
      have hbelongs' : Relates headers .belongsTo origin target := hbelongs
      have hincludes := kind_eq_includes_iff distinct hrelates hbelongs'
      cases kind with
      | imports => exact hforeign rfl hbelongs
      | includes => cases hincludes.1 rfl
      | belongsTo => exact hkind rfl

end Resolved

/-- The link graph records the relations of all sources, and nothing besides: for every source and
every kind of relation it lists, in strictly ascending order, the sources to which or from which
there is such a relation, and it has as many links as there are relations. The one relation that is
left out is that of a submodule importing the module to which it belongs. -/
theorem link_graph_records (sorted : headers.Pairwise fun a b => a.id.le b.id)
    (hok : ofHeaders headers = .ok linkage) :
    (∀ kind a, SourceId.Ascending (linkage.graph.linksFrom a kind)
        ∧ ∀ b, b ∈ linkage.graph.linksFrom a kind ↔ Recorded headers kind a b)
      ∧ (∀ kind b, SourceId.Ascending (linkage.graph.linksTo b kind)
        ∧ ∀ a, a ∈ linkage.graph.linksTo b kind ↔ Recorded headers kind a b)
      ∧ (∀ s ∈ linkage.sources, linkage.graph.linksFrom s.header.id .belongsTo
        = if s.header.isModule then [] else [s.owner])
      ∧ linkage.graph.links.length
        = {l : Link | Recorded headers l.kind l.origin l.target}.ncard := by
  obtain ⟨hdistinct, _⟩ := ofHeaders_eq_ok hok
  have distinct := nodup_of_checkDistinct sorted hdistinct
  obtain ⟨resolved, hresolved, _, hsources, hgraph⟩ := steps_of_ofHeaders hok
  have hlinks : ∀ l : Link, l ∈ linkage.graph.links
      ↔ Recorded headers l.kind l.origin l.target := by
    rw [hgraph]
    exact fun l => mem_links_iff sorted distinct hresolved hsources
  have hends : (linkage.graph.links.map Link.ends).Nodup := by
    rw [hgraph]
    exact LinkGraph.nodup_foldl_insertLink List.nodup_nil
  have hfrom : ∀ kind a b, b ∈ linkage.graph.linksFrom a kind ↔ Recorded headers kind a b := by
    intro kind a b
    rw [LinkGraph.mem_linksFrom_iff, hlinks]
  refine ⟨?_, ?_, ?_, ?_⟩
  · intro kind a
    exact ⟨LinkGraph.ascending_linksFrom hends, hfrom kind a⟩
  · intro kind b
    refine ⟨LinkGraph.ascending_linksTo hends, fun a => ?_⟩
    rw [LinkGraph.mem_linksTo_iff, hlinks]
  · intro s hs
    have howner : ∀ b, b ∈ linkage.graph.linksFrom s.header.id .belongsTo
        ↔ s.header.isModule = false ∧ b = s.owner := by
      intro b
      rw [hfrom, ← belongsTo_iff sorted distinct hresolved hsources hs]
      exact and_iff_left LinkKind.noConfusion
    cases hmodule : s.header.isModule with
    | true =>
      apply List.eq_nil_iff_forall_not_mem.2
      intro b hb
      have hfalse := ((howner b).1 hb).1
      rw [hmodule] at hfalse
      cases hfalse
    | false =>
      have hnodup : (linkage.graph.linksFrom s.header.id .belongsTo).Nodup :=
        (LinkGraph.ascending_linksFrom hends).imp And.right
      rw [if_neg Bool.false_ne_true]
      apply List.perm_singleton.1
      rw [List.perm_ext_iff_of_nodup hnodup (List.nodup_singleton _)]
      intro b
      rw [howner, hmodule, List.mem_singleton]
      exact and_iff_right rfl
  · have hset : {l : Link | Recorded headers l.kind l.origin l.target}
        = (linkage.graph.links.toFinset : Set Link) := by
      ext l
      rw [List.coe_toFinset]
      exact (hlinks l).symm
    rw [hset, Set.ncard_coe_finset, List.toFinset_card_of_nodup hends.of_map]

/-- A module that includes a submodule, which imports that module. -/
def ownImport : List Header :=
  let start : Location := ⟨"", 1, 1⟩
  [⟨⟨"a", none⟩, .module "urn:a", .v1, "a", [], [⟨"s", none, start⟩], start⟩,
    ⟨⟨"s", none⟩, .submodule "a", .v1, "a", [⟨"a", "x", none, start⟩], [], start⟩]

theorem pairwise_ownImport : ownImport.Pairwise fun a b => a.id.le b.id := by decide +kernel

theorem link_graph_records_two : ownImport.Pairwise (fun a b => a.id.le b.id)
    ∧ (∃ linkage, ofHeaders ownImport = .ok linkage
      ∧ linkage.graph.links.length
        = {l : Link | Recorded ownImport l.kind l.origin l.target}.ncard)
    ∧ Recorded ownImport .includes ⟨"a", none⟩ ⟨"s", none⟩
    ∧ Recorded ownImport .belongsTo ⟨"s", none⟩ ⟨"a", none⟩ := by
  have linked : ∃ linkage, ofHeaders ownImport = .ok linkage
      ∧ ⟨"s", none⟩ ∈ linkage.graph.linksFrom ⟨"a", none⟩ .includes
      ∧ ⟨"a", none⟩ ∈ linkage.graph.linksFrom ⟨"s", none⟩ .belongsTo :=
    ⟨_, by cbv, by decide +kernel, by decide +kernel⟩
  obtain ⟨linkage, hok, hincludes, hbelongs⟩ := linked
  obtain ⟨hfrom, _, _, hcount⟩ := link_graph_records pairwise_ownImport hok
  exact ⟨pairwise_ownImport, ⟨linkage, hok, hcount⟩, ((hfrom _ _).2 _).1 hincludes,
    ((hfrom _ _).2 _).1 hbelongs⟩

/-- That a submodule imports its own module is not recorded. -/
theorem own_import_not_recorded : ∃ linkage, ofHeaders ownImport = .ok linkage
    ∧ Relates ownImport .imports ⟨"s", none⟩ ⟨"a", none⟩
    ∧ linkage.graph.linksFrom ⟨"s", none⟩ .imports = []
    ∧ linkage.graph.linksTo ⟨"a", none⟩ .imports = [] := by
  have hselect : ∃ m, select? ownImport true "a" none = some m ∧ m.id = ⟨"a", none⟩ :=
    ⟨_, by cbv, rfl⟩
  obtain ⟨m, hm, hid⟩ := hselect
  have himports : Relates ownImport .imports ⟨"s", none⟩ ⟨"a", none⟩ :=
    ⟨_, List.mem_cons_of_mem _ List.mem_cons_self, rfl, _, List.mem_cons_self, m,
      .of_select? pairwise_ownImport hm, hid⟩
  exact ⟨_, by cbv, himports, by decide +kernel, by decide +kernel⟩

end Linkage

end YangSchema
