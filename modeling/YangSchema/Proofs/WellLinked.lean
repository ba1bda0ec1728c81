import YangSchema.Proofs.Families

/-!
# Well-linked sources

What it takes for sources to be linked can be said without linking them. A reference names the
sources of its role, its name and, where it asks for one, its revision (`Linkage.Names`), and it
selects the latest of them (`Linkage.Selects`). Includes relate sources to those they select
(`Linkage.Includes`), and must not lead back to where they began.

Headers in identifier order can be linked exactly if they are well linked
(`Linkage.linking_succeeds_iff`). Every check of `Linkage.ofHeaders` settles one condition of
`Linkage.WellLinked`; only the owner of a submodule can be found in two ways, through a family or by
its name, and what a family holds belongs to the module by its name, too.
-/

namespace YangSchema

namespace Linkage

open Relation

variable {headers : List Header} {h s t c : Header} {resolved : List Resolved} {r : Resolved}
  {isModule : Bool} {name : String} {wanted : Option Revision} {id : SourceId}

/-! ## What references select -/

/-- A reference names a source: one of the role and the name, and with the revision that is wanted,
if one is. -/
structure Names (headers : List Header) (isModule : Bool) (name : String)
    (wanted : Option Revision) (h : Header) : Prop where
  registered : h ∈ headers
  role : h.isModule = isModule
  name_eq : h.id.name = name
  revision_eq : ∀ r, wanted = some r → h.id.revision = some r

/-- A reference selects the latest of the sources that it names. -/
structure Selects (headers : List Header) (isModule : Bool) (name : String)
    (wanted : Option Revision) (h : Header) : Prop
    extends Names headers isModule name wanted h where
  latest : ∀ c, Names headers isModule name wanted c → c.id.le h.id = true

theorem mem_candidates_iff :
    c ∈ headers.filter (fun h => h.isModule == isModule && h.id.name == name)
      ↔ Names headers isModule name none c := by
  simp only [List.mem_filter, Bool.and_eq_true, beq_iff_eq]
  constructor
  · rintro ⟨hmem, hrole, hname⟩
    exact ⟨hmem, hrole, hname, by simp⟩
  · intro hnames
    exact ⟨hnames.registered, hnames.role, hnames.name_eq⟩

theorem Names.candidate (hnames : Names headers isModule name wanted c) :
    Names headers isModule name none c :=
  { hnames with revision_eq := by simp }

/-- What is selected from headers in identifier order is the latest source that is named. -/
theorem Selects.of_select? (sorted : headers.Pairwise fun a b => a.id.le b.id)
    (hs : select? headers isModule name wanted = some s) :
    Selects headers isModule name wanted s := by
  unfold select? at hs
  dsimp only at hs
  cases wanted with
  | none =>
    refine ⟨mem_candidates_iff.1 (List.mem_of_getLast? hs), ?_⟩
    intro c hc
    have hlast := (sorted.filter _).rel_getLast_of_rel_getLast_getLast
      (mem_candidates_iff.2 hc) (SourceId.le_refl _)
    rwa [(List.getLast_eq_iff_getLast?_eq_some _).2 hs] at hlast
  | some r =>
    have hcandidate := mem_candidates_iff.1 (List.mem_of_find?_eq_some hs)
    have hrevision : s.id.revision = some r := by simpa using List.find?_some hs
    refine ⟨{ hcandidate with revision_eq := by simpa using hrevision }, ?_⟩
    intro c hc
    -- with the revision given, all that is named has one identifier
    have hid : c.id = s.id := by
      rw [SourceId.mk.injEq]
      exact ⟨hc.name_eq.trans hcandidate.name_eq.symm,
        (hc.revision_eq r rfl).trans hrevision.symm⟩
    rw [hid]
    exact SourceId.le_refl _

/-- A reference that names some source selects one. -/
theorem exists_select? (hc : Names headers isModule name wanted c) :
    ∃ s, select? headers isModule name wanted = some s := by
  have hmem := mem_candidates_iff.2 hc.candidate
  rw [← Option.isSome_iff_exists]
  unfold select?
  cases wanted with
  | none => simpa using List.ne_nil_of_mem hmem
  | some r =>
    rw [List.find?_isSome]
    exact ⟨c, hmem, by simp [hc.revision_eq r rfl]⟩

theorem Selects.unique (distinct : (headers.map (·.id)).Nodup)
    (hs : Selects headers isModule name wanted s) (ht : Selects headers isModule name wanted t) :
    s = t := by
  apply List.inj_on_of_nodup_map distinct hs.registered ht.registered
  exact SourceId.le_antisymm (ht.latest s hs.toNames) (hs.latest t ht.toNames)

theorem select?_eq_some_iff (sorted : headers.Pairwise fun a b => a.id.le b.id)
    (distinct : (headers.map (·.id)).Nodup) :
    select? headers isModule name wanted = some s ↔ Selects headers isModule name wanted s := by
  constructor
  · exact Selects.of_select? sorted
  · intro hs
    obtain ⟨t, ht⟩ := exists_select? hs.toNames
    rw [ht, hs.unique distinct (.of_select? sorted ht)]

theorem resolveImport_eq_ok (sorted : headers.Pairwise fun a b => a.id.le b.id)
    (distinct : (headers.map (·.id)).Nodup) {i : Import} :
    resolveImport headers h i = .ok id
      ↔ ∃ m, Selects headers true i.module i.revision m ∧ m.id = id := by
  simp only [← select?_eq_some_iff sorted distinct]
  unfold resolveImport
  cases select? headers true i.module i.revision <;> simp

theorem resolveInclude_eq_ok (sorted : headers.Pairwise fun a b => a.id.le b.id)
    (distinct : (headers.map (·.id)).Nodup) {i : Include} :
    resolveInclude headers h i = .ok id
      ↔ ∃ s, Selects headers false i.submodule i.revision s ∧ s.moduleName = h.moduleName
        ∧ s.id = id := by
  simp only [← select?_eq_some_iff sorted distinct]
  unfold resolveInclude
  cases select? headers false i.submodule i.revision with
  | none => simp
  | some s => by_cases hs : s.moduleName = h.moduleName <;> simp [hs]

/-! ## What it takes to be linked -/

/-- A source includes another one: one of its includes selects it. -/
def Includes (headers : List Header) (a b : SourceId) : Prop :=
  ∃ h ∈ headers, h.id = a
    ∧ ∃ i ∈ h.includes, ∃ s, Selects headers false i.submodule i.revision s ∧ s.id = b

/-- The sources of these headers can be linked: their identifiers are distinct; what they import,
include and belong to is there; what they include belongs to the same module; no include leads back
to where it came from; and no source binds a prefix twice. -/
structure WellLinked (headers : List Header) : Prop where
  distinct : (headers.map (·.id)).Nodup
  imports : ∀ h ∈ headers, ∀ i ∈ h.imports, ∃ m, Names headers true i.module i.revision m
  includes : ∀ h ∈ headers, ∀ i ∈ h.includes,
    ∃ s, Selects headers false i.submodule i.revision s ∧ s.moduleName = h.moduleName
  acyclic : ∀ id, ¬ TransGen (Includes headers) id id
  owners : ∀ h ∈ headers, ∀ name, h.belongsTo? = some name → ∃ m, Names headers true name none m
  prefixes : ∀ h ∈ headers, (h.ownPrefix :: h.imports.map (·.boundPrefix)).Nodup

/-! ## Checks -/

/-- Headers in identifier order pass the first check exactly if their identifiers are distinct. -/
theorem checkDistinct_eq_ok (sorted : headers.Pairwise fun a b => a.id.le b.id) :
    checkDistinct headers = .ok () ↔ (headers.map (·.id)).Nodup := by
  constructor
  · exact nodup_of_checkDistinct sorted
  · intro distinct
    clear sorted
    fun_induction checkDistinct headers with
    | case1 a b rest heq => simp [heq] at distinct
    | case2 a b rest _ ih => exact ih (List.nodup_cons.1 distinct).2
    | case3 => rfl

/-- A header is resolved exactly if its imports and includes are. -/
theorem exists_resolve_eq_ok (sorted : headers.Pairwise fun a b => a.id.le b.id)
    (distinct : (headers.map (·.id)).Nodup) : (∃ r, resolve headers h = .ok r)
      ↔ (∀ i ∈ h.imports, ∃ m, Names headers true i.module i.revision m)
        ∧ ∀ i ∈ h.includes,
          ∃ s, Selects headers false i.submodule i.revision s ∧ s.moduleName = h.moduleName := by
  have himport : ∀ i ∈ h.imports, (∃ p, (do
        return (i.boundPrefix, ← resolveImport headers h i)) = Except.ok p)
      ↔ ∃ m, Names headers true i.module i.revision m := by
    intro i _
    constructor
    · rintro ⟨p, hp⟩
      obtain ⟨id, hid, _⟩ := Result.bind_eq_ok.1 hp
      obtain ⟨m, hm, _⟩ := (resolveImport_eq_ok sorted distinct).1 hid
      exact ⟨m, hm.toNames⟩
    · rintro ⟨m, hm⟩
      obtain ⟨s, hs⟩ := exists_select? hm
      have hid := (resolveImport_eq_ok (h := h) sorted distinct).2 ⟨s, .of_select? sorted hs, rfl⟩
      exact ⟨_, Result.bind_eq_ok.2 ⟨_, hid, rfl⟩⟩
  have hinclude : ∀ i ∈ h.includes, (∃ id, resolveInclude headers h i = .ok id)
      ↔ ∃ s, Selects headers false i.submodule i.revision s ∧ s.moduleName = h.moduleName := by
    intro i _
    simp only [resolveInclude_eq_ok sorted distinct]
    constructor
    · rintro ⟨_, s, hs, hmodule, _⟩
      exact ⟨s, hs, hmodule⟩
    · rintro ⟨s, hs, hmodule⟩
      exact ⟨s.id, s, hs, hmodule, rfl⟩
  rw [← forall₂_congr himport, ← forall₂_congr hinclude, ← Result.exists_mapM_eq_ok,
    ← Result.exists_mapM_eq_ok]
  constructor
  · rintro ⟨r, hr⟩
    obtain ⟨imports, himports, hr⟩ := Result.bind_eq_ok.1 hr
    obtain ⟨includes, hincludes, _⟩ := Result.bind_eq_ok.1 hr
    exact ⟨⟨imports, himports⟩, includes, hincludes⟩
  · rintro ⟨⟨imports, himports⟩, includes, hincludes⟩
    exact ⟨_, Result.bind_eq_ok.2 ⟨_, himports, Result.bind_eq_ok.2 ⟨_, hincludes, rfl⟩⟩⟩

/-- A resolved source imports what its imports select. -/
theorem mem_imports_iff (sorted : headers.Pairwise fun a b => a.id.le b.id)
    (distinct : (headers.map (·.id)).Nodup) (hr : resolve headers h = .ok r) :
    id ∈ r.imports.map (·.2)
      ↔ ∃ i ∈ h.imports, ∃ m, Selects headers true i.module i.revision m ∧ m.id = id := by
  obtain ⟨imports, himports, hr⟩ := Result.bind_eq_ok.1 hr
  obtain ⟨_, _, hreturn⟩ := Result.bind_eq_ok.1 hr
  cases hreturn
  simp only [← resolveImport_eq_ok (h := h) sorted distinct]
  constructor
  · intro hid
    obtain ⟨p, hp, rfl⟩ := List.mem_map.1 hid
    obtain ⟨i, hi, hread⟩ := Result.exists_of_mem_mapM himports hp
    obtain ⟨_, hselected, hreturn⟩ := Result.bind_eq_ok.1 hread
    cases hreturn
    exact ⟨i, hi, hselected⟩
  · rintro ⟨i, hi, hok⟩
    obtain ⟨p, hp, hok'⟩ := Result.exists_mem_of_mapM himports hi
    rw [Result.bind_eq_of_ok hok] at hok'
    cases hok'
    exact List.mem_map_of_mem hp

/-- A resolved source includes what its includes select. -/
theorem mem_includes_iff (sorted : headers.Pairwise fun a b => a.id.le b.id)
    (distinct : (headers.map (·.id)).Nodup) (hr : resolve headers h = .ok r) :
    id ∈ r.includes
      ↔ ∃ i ∈ h.includes, ∃ s, Selects headers false i.submodule i.revision s ∧ s.id = id := by
  have same := ((exists_resolve_eq_ok sorted distinct).1 ⟨r, hr⟩).2
  obtain ⟨_, _, hr⟩ := Result.bind_eq_ok.1 hr
  obtain ⟨ids, hall, hreturn⟩ := Result.bind_eq_ok.1 hr
  cases hreturn
  constructor
  · intro hid
    obtain ⟨i, hi, hok⟩ := Result.exists_of_mem_mapM hall hid
    obtain ⟨s, hs, _, hsid⟩ := (resolveInclude_eq_ok sorted distinct).1 hok
    exact ⟨i, hi, s, hs, hsid⟩
  · rintro ⟨i, hi, s, hs, hsid⟩
    obtain ⟨t, ht, hmodule⟩ := same i hi
    obtain rfl := hs.unique distinct ht
    obtain ⟨id', hid, hok⟩ := Result.exists_mem_of_mapM hall hi
    rw [(resolveInclude_eq_ok sorted distinct).2 ⟨s, hs, hmodule, hsid⟩] at hok
    cases hok
    exact hid

/-! ### Includes -/

/-- Where every include selects a submodule of the same module, includes stay within a module. -/
theorem moduleName_of_includes (distinct : (headers.map (·.id)).Nodup)
    (same : ∀ h ∈ headers, ∀ i ∈ h.includes,
      ∃ s, Selects headers false i.submodule i.revision s ∧ s.moduleName = h.moduleName)
    (hh : h ∈ headers) (hid : Includes headers h.id id) :
    ∃ s ∈ headers, s.id = id ∧ s.moduleName = h.moduleName := by
  obtain ⟨h', hh', heq, i, hi, s, hs, rfl⟩ := hid
  obtain rfl := List.inj_on_of_nodup_map distinct hh' hh heq
  obtain ⟨t, ht, hmodule⟩ := same h' hh' i hi
  exact ⟨s, hs.registered, rfl, by rwa [hs.unique distinct ht]⟩

theorem moduleName_of_reflTransGen (distinct : (headers.map (·.id)).Nodup)
    (same : ∀ h ∈ headers, ∀ i ∈ h.includes,
      ∃ s, Selects headers false i.submodule i.revision s ∧ s.moduleName = h.moduleName)
    (hh : h ∈ headers) (path : ReflTransGen (Includes headers) h.id id) :
    ∃ s ∈ headers, s.id = id ∧ s.moduleName = h.moduleName := by
  induction path with
  | refl => exact ⟨h, hh, rfl, rfl⟩
  | tail _ step ih =>
    obtain ⟨c, hc, rfl, hcmodule⟩ := ih
    obtain ⟨s, hs, hid, hmodule⟩ := moduleName_of_includes distinct same hc step
    exact ⟨s, hs, hid, hmodule.trans hcmodule⟩

section Resolved

variable (sorted : headers.Pairwise fun a b => a.id.le b.id)
  (distinct : (headers.map (·.id)).Nodup)
  (hresolved : headers.mapM (resolve headers) = .ok resolved)

include sorted distinct hresolved

omit sorted distinct in
theorem identifiers_eq : identifiers resolved = headers.map (·.id) := by
  rw [← headers_of_resolved hresolved, identifiers, List.map_map]
  rfl

omit sorted in
/-- A source is found with what resolving its header has given. -/
theorem find?_resolved (hh : h ∈ headers) : ∃ r, resolve headers h = .ok r
    ∧ resolved.find? (fun q => q.header.id = h.id) = some r := by
  obtain ⟨r, hr, hread⟩ := Result.exists_mem_of_mapM hresolved hh
  have hheader := header_of_resolve hread
  refine ⟨r, hread, ?_⟩
  cases hfound : resolved.find? fun q => q.header.id = h.id with
  | none => exact absurd (List.find?_eq_none.1 hfound r hr) (by simp [hheader])
  | some q =>
    rw [← identifiers_eq hresolved] at distinct
    have hid : q.header.id = r.header.id := by
      rw [hheader]
      simpa using List.find?_some hfound
    rw [List.inj_on_of_nodup_map distinct (List.mem_of_find?_eq_some hfound) hr hid]

/-- What is found to be included is what includes select. -/
theorem mem_includesOf_iff {a b : SourceId} :
    b ∈ includesOf resolved a ↔ Includes headers a b := by
  constructor
  · intro hb
    cases hfound : resolved.find? fun q => q.header.id = a with
    | none =>
      rw [includesOf, hfound] at hb
      exact absurd hb List.not_mem_nil
    | some r =>
      rw [includesOf, hfound] at hb
      obtain ⟨h, hh, hread⟩ :=
        Result.exists_of_mem_mapM hresolved (List.mem_of_find?_eq_some hfound)
      have hid : h.id = a := by
        rw [← header_of_resolve hread]
        simpa using List.find?_some hfound
      exact ⟨h, hh, hid, (mem_includes_iff sorted distinct hread).1 hb⟩
  · rintro ⟨h, hh, rfl, hselected⟩
    obtain ⟨r, hread, hfound⟩ := find?_resolved distinct hresolved hh
    rw [includesOf, hfound]
    exact (mem_includes_iff sorted distinct hread).2 hselected

/-- The edges that are searched for cycles are the includes. -/
theorem edge_includesOf :
    Digraph.Edge (includesOf resolved) (identifiers resolved) = Includes headers := by
  funext a b
  apply propext
  unfold Digraph.Edge
  rw [mem_includesOf_iff sorted distinct hresolved, identifiers_eq hresolved]
  constructor
  · exact And.left
  · intro hincludes
    obtain ⟨_, _, _, _, _, s, hs, rfl⟩ := id hincludes
    exact ⟨hincludes, List.mem_map_of_mem hs.registered⟩

/-- The check on includes is passed exactly if none leads back to where it came from. -/
theorem checkIncludes_eq_ok :
    checkIncludes resolved = .ok () ↔ ∀ id, ¬ TransGen (Includes headers) id id := by
  have hedge := edge_includesOf sorted distinct hresolved
  have hnone : Digraph.firstCycle? (identifiers resolved) (includesOf resolved) = none ↔ _ :=
    Digraph.firstCycle?_eq_none_iff (by rwa [identifiers_eq hresolved])
  rw [hedge, identifiers_eq hresolved] at hnone
  have hall : (∀ id ∈ headers.map (·.id), ¬ TransGen (Includes headers) id id)
      ↔ ∀ id, ¬ TransGen (Includes headers) id id := by
    constructor
    · intro h id hcycle
      -- what is on a cycle of includes has been registered
      obtain ⟨_, ⟨c, hc, rfl, _⟩, _⟩ := TransGen.head'_iff.1 hcycle
      exact h c.id (List.mem_map_of_mem hc) hcycle
    · exact fun h id _ => h id
  rw [← hall, ← hnone, ← identifiers_eq hresolved]
  unfold checkIncludes
  cases Digraph.firstCycle? (identifiers resolved) (includesOf resolved) <;> simp

/-- The sources that a family holds besides its module are those that this includes, directly or
through others. -/
theorem mem_members_iff {module : SourceId} :
    id ∈ (identifiers resolved).filter (· ∈ Digraph.closure (includesOf resolved)
        (identifiers resolved) (includesOf resolved module))
      ↔ TransGen (Includes headers) module id := by
  have hedge := edge_includesOf sorted distinct hresolved
  have hclosure : id ∈ Digraph.closure (includesOf resolved) (identifiers resolved)
        (includesOf resolved module)
      ↔ ∃ p, Includes headers module p ∧ ReflTransGen (Includes headers) p id := by
    rw [Digraph.mem_closure_iff, hedge]
    apply exists_congr
    intro p
    rw [← and_assoc, and_congr_left_iff]
    intro _
    rw [← hedge]
    rfl
  rw [List.mem_filter, decide_eq_true_iff, hclosure, TransGen.head'_iff]
  constructor
  · exact And.right
  · rintro ⟨p, hp, path⟩
    refine ⟨?_, p, hp, path⟩
    -- the last include on the way has selected a source
    rw [identifiers_eq hresolved]
    rcases ReflTransGen.cases_tail path with rfl | ⟨_, _, hlast⟩
    · obtain ⟨_, _, _, _, _, s, hs, rfl⟩ := hp
      exact List.mem_map_of_mem hs.registered
    · obtain ⟨_, _, _, _, _, s, hs, rfl⟩ := hlast
      exact List.mem_map_of_mem hs.registered

/-- A family holds its module and what this includes, directly or through others. -/
theorem mem_family_iff_reflTransGen {module : SourceId} :
    id ∈ family resolved module ↔ ReflTransGen (Includes headers) module id := by
  unfold family
  rw [List.mem_cons, mem_members_iff sorted distinct hresolved, reflTransGen_iff_eq_or_transGen]

end Resolved

/-! ### Owners and prefixes -/

theorem belongsTo?_eq_none_iff : h.belongsTo? = none ↔ h.isModule = true := by
  unfold Header.belongsTo? Header.isModule
  cases h.role <;> simp

/-- A source has an owner if it is a module, if some family holds it, or if there is a module of the
name to which it belongs. -/
theorem exists_owner_eq_ok {families : Families} : (∃ o, owner headers families h = .ok o)
    ↔ h.isModule = true ∨ (∃ f ∈ families, h.id ∈ f.2)
      ∨ ∃ m, Names headers true h.moduleName none m := by
  have hselect : (∃ m, select? headers true h.moduleName none = some m)
      ↔ ∃ m, Names headers true h.moduleName none m := by
    constructor
    · rintro ⟨m, hm⟩
      exact ⟨m, mem_candidates_iff.1 (List.mem_of_getLast? hm)⟩
    · rintro ⟨m, hm⟩
      exact exists_select? hm
  have hfamily : (∃ f, (families.filter fun f => h.id ∈ f.2).getLast? = some f)
      ↔ ∃ f ∈ families, h.id ∈ f.2 := by
    rw [← Option.isSome_iff_exists]
    simp
  rw [← hselect, ← hfamily]
  unfold owner
  cases h.isModule with
  | true => simp
  | false =>
    cases (families.filter fun f => h.id ∈ f.2).getLast? with
    | some f => simp
    | none => cases select? headers true h.moduleName none <;> simp

/-- Binding prefixes succeeds exactly if none of them has been bound. -/
theorem exists_bindPrefixes_eq_ok (table imports : List (String × SourceId)) :
    (∃ bound, bindPrefixes id table imports = .ok bound)
      ↔ (imports.map (·.1)).Nodup ∧ ∀ p ∈ imports.map (·.1), p ∉ table.map (·.1) := by
  have hlookup : ∀ (p : String) (table : List (String × SourceId)),
      (table.lookup p).isSome = true ↔ p ∈ table.map (·.1) := by
    intro p table
    simp [List.lookup_isSome_iff, @eq_comm _ p]
  -- what has been bound is in the table, which therefore varies along the list
  induction imports generalizing table with
  | nil => simp [bindPrefixes]
  | cons i imports ih =>
    rw [bindPrefixes]
    by_cases hbound : (table.lookup i.1).isSome = true
    · rw [if_pos hbound]
      have hmem := (hlookup i.1 table).1 hbound
      simp only [reduceCtorEq, exists_false, false_iff, not_and]
      intro _ hall
      exact hall i.1 List.mem_cons_self hmem
    · rw [if_neg hbound]
      rw [hlookup] at hbound
      refine (ih _).trans ?_
      simp only [List.map_cons, List.nodup_cons, List.mem_cons, not_or, forall_eq_or_imp]
      constructor
      · rintro ⟨hnodup, hnew⟩
        refine ⟨⟨fun hmem => (hnew i.1 hmem).1 rfl, hnodup⟩, hbound, fun p hp => (hnew p hp).2⟩
      · rintro ⟨⟨hhead, hnodup⟩, _, hnew⟩
        refine ⟨hnodup, fun p hp => ⟨?_, hnew p hp⟩⟩
        rintro rfl
        exact hhead hp

/-- A source is linked if it has an owner and binds no prefix twice. -/
theorem exists_linkSource_eq_ok {families : Families} :
    (∃ s, linkSource headers families r = .ok s)
      ↔ (∃ o, owner headers families r.header = .ok o)
        ∧ (r.header.ownPrefix :: r.imports.map (·.1)).Nodup := by
  have htable : ∀ o, (∃ table, prefixTable o r = .ok table)
      ↔ (r.header.ownPrefix :: r.imports.map (·.1)).Nodup := by
    intro o
    have hbind : (∃ table, prefixTable o r = .ok table)
        ↔ ∃ bound, bindPrefixes r.header.id [(r.header.ownPrefix, o)] r.imports = .ok bound := by
      constructor
      · rintro ⟨table, h⟩
        obtain ⟨bound, hbound, _⟩ := Result.bind_eq_ok.1 h
        exact ⟨bound, hbound⟩
      · rintro ⟨bound, hbound⟩
        exact ⟨_, Result.bind_eq_ok.2 ⟨bound, hbound, rfl⟩⟩
    rw [hbind, exists_bindPrefixes_eq_ok, List.nodup_cons, and_comm]
    apply and_congr_left
    intro _
    simp only [List.map_cons, List.map_nil, List.mem_singleton]
    constructor
    · intro hnew hmem
      exact hnew _ hmem rfl
    · rintro hown p hp rfl
      exact hown hp
  constructor
  · rintro ⟨s, hs⟩
    obtain ⟨o, ho, hs⟩ := Result.bind_eq_ok.1 hs
    obtain ⟨table, hprefixes, _⟩ := Result.bind_eq_ok.1 hs
    exact ⟨⟨o, ho⟩, (htable o).1 ⟨table, hprefixes⟩⟩
  · rintro ⟨⟨o, ho⟩, hprefixes⟩
    obtain ⟨table, hprefixes⟩ := (htable o).2 hprefixes
    exact ⟨_, Result.bind_eq_ok.2 ⟨o, ho, Result.bind_eq_ok.2 ⟨table, hprefixes, rfl⟩⟩⟩

theorem map_prefix_of_resolve (hr : resolve headers h = .ok r) :
    r.imports.map (·.1) = h.imports.map (·.boundPrefix) := by
  obtain ⟨imports, himports, hr⟩ := Result.bind_eq_ok.1 hr
  obtain ⟨_, _, hreturn⟩ := Result.bind_eq_ok.1 hr
  cases hreturn
  rw [← List.forall₂_eq_eq_eq, List.forall₂_map_left_iff, List.forall₂_map_right_iff]
  apply (Result.mapM_eq_ok.1 himports).flip.imp
  intro p i hp
  obtain ⟨_, _, hreturn⟩ := Result.bind_eq_ok.1 hp
  cases hreturn
  rfl

/-- Where all headers have been resolved, a source has an owner exactly if there is a module of the
name to which it belongs. -/
theorem exists_owner_iff (sorted : headers.Pairwise fun a b => a.id.le b.id)
    (distinct : (headers.map (·.id)).Nodup)
    (hresolved : headers.mapM (resolve headers) = .ok resolved) (hh : h ∈ headers) :
    (∃ o, owner headers (familiesOf resolved) h = .ok o)
      ↔ ∀ name, h.belongsTo? = some name → ∃ m, Names headers true name none m := by
  have hname : ∀ name, h.belongsTo? = some name → h.moduleName = name := by
    intro name hbelongs
    rw [Header.moduleName, hbelongs]
    rfl
  rw [exists_owner_eq_ok]
  constructor
  · rintro howner name hbelongs
    rcases howner with hmodule | ⟨⟨module, members⟩, hfamily, hmem⟩ | hnames
    · rw [← belongsTo?_eq_none_iff, hbelongs] at hmodule
      cases hmodule
    · -- a family holds sources of the name of its module only
      obtain ⟨⟨r, hr, hmodule, rfl⟩, rfl⟩ := mem_familiesOf hfamily
      obtain ⟨m, hm, hread⟩ := Result.exists_of_mem_mapM hresolved hr
      rw [header_of_resolve hread] at hmodule hmem
      have path := (mem_family_iff_reflTransGen sorted distinct hresolved).1 hmem
      have same := fun h hh => ((exists_resolve_eq_ok sorted distinct).1
        (Result.exists_mapM_eq_ok.1 ⟨resolved, hresolved⟩ h hh)).2
      obtain ⟨s, hs, hid, hsname⟩ := moduleName_of_reflTransGen distinct same hm path
      obtain rfl := List.inj_on_of_nodup_map distinct hs hh hid
      refine ⟨m, hm, hmodule, ?_, by simp⟩
      rw [← hname name hbelongs, hsname, Header.moduleName, belongsTo?_eq_none_iff.2 hmodule]
      rfl
    · rwa [hname name hbelongs] at hnames
  · intro hall
    cases hbelongs : h.belongsTo? with
    | none => exact .inl (belongsTo?_eq_none_iff.1 hbelongs)
    | some name =>
      right
      right
      rw [hname name hbelongs]
      exact hall name hbelongs

/-! ## Linking -/

/-- Linking succeeds exactly if each of its steps does. -/
theorem exists_ofHeaders_eq_ok : (∃ linkage, ofHeaders headers = .ok linkage)
    ↔ checkDistinct headers = .ok ()
      ∧ ∃ resolved, headers.mapM (resolve headers) = .ok resolved ∧ checkIncludes resolved = .ok ()
        ∧ ∃ sources, resolved.mapM (linkSource headers (familiesOf resolved)) = .ok sources := by
  constructor
  · rintro ⟨linkage, hok⟩
    obtain ⟨_, hdistinct, hok⟩ := Result.bind_eq_ok.1 hok
    obtain ⟨resolved, hresolved, hok⟩ := Result.bind_eq_ok.1 hok
    obtain ⟨_, hincludes, hok⟩ := Result.bind_eq_ok.1 hok
    obtain ⟨sources, hsources, _⟩ := Result.bind_eq_ok.1 hok
    exact ⟨hdistinct, resolved, hresolved, hincludes, sources, hsources⟩
  · rintro ⟨hdistinct, resolved, hresolved, hincludes, sources, hsources⟩
    exact ⟨_, Result.bind_eq_ok.2 ⟨_, hdistinct, Result.bind_eq_ok.2 ⟨_, hresolved,
      Result.bind_eq_ok.2 ⟨_, hincludes, Result.bind_eq_ok.2 ⟨_, hsources, rfl⟩⟩⟩⟩⟩

/-- The sources that have been resolved are linked exactly if each belongs to a module that is there
and binds no prefix twice. -/
theorem exists_mapM_linkSource_eq_ok (sorted : headers.Pairwise fun a b => a.id.le b.id)
    (distinct : (headers.map (·.id)).Nodup)
    (hresolved : headers.mapM (resolve headers) = .ok resolved) :
    (∃ sources, resolved.mapM (linkSource headers (familiesOf resolved)) = .ok sources)
      ↔ ∀ h ∈ headers,
        (∀ name, h.belongsTo? = some name → ∃ m, Names headers true name none m)
        ∧ (h.ownPrefix :: h.imports.map (·.boundPrefix)).Nodup := by
  rw [Result.exists_mapM_eq_ok]
  have linked : ∀ h ∈ headers, ∀ r, resolve headers h = .ok r →
      ((∃ s, linkSource headers (familiesOf resolved) r = .ok s)
        ↔ (∀ name, h.belongsTo? = some name → ∃ m, Names headers true name none m)
          ∧ (h.ownPrefix :: h.imports.map (·.boundPrefix)).Nodup) := by
    intro h hh r hr
    rw [exists_linkSource_eq_ok, header_of_resolve hr, map_prefix_of_resolve hr,
      exists_owner_iff sorted distinct hresolved hh]
  constructor
  · intro hall h hh
    obtain ⟨r, hr, hread⟩ := Result.exists_mem_of_mapM hresolved hh
    exact (linked h hh r hread).1 (hall r hr)
  · intro hall r hr
    obtain ⟨h, hh, hread⟩ := Result.exists_of_mem_mapM hresolved hr
    exact (linked h hh r hread).2 (hall h hh)

/-- A fault of linkage. -/
def IsLinkageError (e : Error) : Prop := ∃ id fault, e = .linkage id fault

theorem checkDistinct_failsWith (headers : List Header) :
    Result.FailsWith IsLinkageError (checkDistinct headers) := by
  fun_induction checkDistinct headers with
  | case1 => exact .error ⟨_, _, rfl⟩
  | case2 _ _ _ _ ih => exact ih
  | case3 => exact .ok ()

theorem resolve_failsWith (headers : List Header) (h : Header) :
    Result.FailsWith IsLinkageError (resolve headers h) := by
  unfold resolve
  refine .bind (.mapM ?_ _) fun imports => .bind (.mapM ?_ _) fun includes => .ok _
  · intro i
    apply Result.FailsWith.bind
    · unfold resolveImport
      split
      · exact .ok _
      · exact .error ⟨_, _, rfl⟩
    · exact fun _ => .ok _
  · intro i
    unfold resolveInclude
    split
    · exact .error ⟨_, _, rfl⟩
    · split
      · exact .ok _
      · exact .error ⟨_, _, rfl⟩

theorem bindPrefixes_failsWith (id : SourceId) (table imports : List (String × SourceId)) :
    Result.FailsWith IsLinkageError (bindPrefixes id table imports) := by
  fun_induction bindPrefixes id table imports with
  | case1 => exact .ok _
  | case2 => exact .error ⟨_, _, rfl⟩
  | case3 _ _ _ _ _ ih => exact ih

theorem linkSource_failsWith (headers : List Header) (families : Families) (r : Resolved) :
    Result.FailsWith IsLinkageError (linkSource headers families r) := by
  unfold linkSource
  apply Result.FailsWith.bind
  · unfold owner
    split
    · exact .ok _
    · split
      · exact .ok _
      · split
        · exact .ok _
        · exact .error ⟨_, _, rfl⟩
  · intro o
    apply Result.FailsWith.bind
    · exact .bind (bindPrefixes_failsWith _ _ _) fun _ => .ok _
    · exact fun _ => .ok _

/-- Headers in identifier order can be linked exactly if they are well linked: linking neither
misses a condition nor asks for more. Where they are not, linking fails with a fault of linkage. -/
theorem linking_succeeds_iff (sorted : headers.Pairwise fun a b => a.id.le b.id) :
    ((∃ linkage, ofHeaders headers = .ok linkage) ↔ WellLinked headers)
      ∧ ∀ e, ofHeaders headers = .error e → ∃ id fault, e = .linkage id fault := by
  constructor
  · rw [exists_ofHeaders_eq_ok, checkDistinct_eq_ok sorted]
    constructor
    · rintro ⟨distinct, resolved, hresolved, hincludes, hlinked⟩
      have hall := fun h hh => (exists_resolve_eq_ok sorted distinct).1
        (Result.exists_mapM_eq_ok.1 ⟨resolved, hresolved⟩ h hh)
      have hsettled := (exists_mapM_linkSource_eq_ok sorted distinct hresolved).1 hlinked
      exact {
        distinct := distinct
        imports := fun h hh => (hall h hh).1
        includes := fun h hh => (hall h hh).2
        acyclic := (checkIncludes_eq_ok sorted distinct hresolved).1 hincludes
        owners := fun h hh => (hsettled h hh).1
        prefixes := fun h hh => (hsettled h hh).2 }
    · intro well
      obtain ⟨resolved, hresolved⟩ := Result.exists_mapM_eq_ok.2 fun h hh =>
        (exists_resolve_eq_ok sorted well.distinct).2 ⟨well.imports h hh, well.includes h hh⟩
      have hincludes := (checkIncludes_eq_ok sorted well.distinct hresolved).2 well.acyclic
      have hlinked := (exists_mapM_linkSource_eq_ok sorted well.distinct hresolved).2
        fun h hh => ⟨well.owners h hh, well.prefixes h hh⟩
      exact ⟨well.distinct, resolved, hresolved, hincludes, hlinked⟩
  · intro e he
    refine Result.FailsWith.bind (P := IsLinkageError) (checkDistinct_failsWith headers) ?_ e he
    refine fun _ => .bind (.mapM (resolve_failsWith headers) _) fun resolved => ?_
    apply Result.FailsWith.bind
    · unfold checkIncludes
      split
      · exact .ok _
      · exact .error ⟨_, _, rfl⟩
    · exact fun _ => .bind (.mapM (linkSource_failsWith _ _) _) fun _ => .ok _

/-- Two modules that import each other, and a submodule that one of them includes. -/
def mutualImports : List Header :=
  let start : Location := ⟨"", 1, 1⟩
  [⟨⟨"a", none⟩, .module "urn:a", .v1, "a", [⟨"b", "b", none, start⟩], [⟨"s", none, start⟩], start⟩,
    ⟨⟨"b", none⟩, .module "urn:b", .v1, "b", [⟨"a", "a", none, start⟩], [], start⟩,
    ⟨⟨"s", none⟩, .submodule "a", .v1, "a", [⟨"b", "b", none, start⟩], [], start⟩]

theorem linking_succeeds_iff_mutual :
    mutualImports.Pairwise (fun a b => a.id.le b.id) ∧ WellLinked mutualImports := by
  have sorted : mutualImports.Pairwise fun a b => a.id.le b.id := by decide +kernel
  exact ⟨sorted, (linking_succeeds_iff sorted).1.1 ⟨_, by cbv⟩⟩

end Linkage

end YangSchema
