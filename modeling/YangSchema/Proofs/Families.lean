import YangSchema.Proofs.Reachability
import YangSchema.Proofs.Scopes

/-!
# Families, owners and prefixes

What linking has settled, read off a declared model.

* A family holds its module and otherwise submodules only (`isModule_iff_of_mem_family`).
* A module owns itself (`owner_of_isModule`), and the latest module whose family holds a submodule
  owns this (`owner_of_latest`).
* The own prefix of a source names its owner (`prefixTarget?_ownPrefix`).
-/

namespace YangSchema

/-- What stands in a list under a key is found there if no other entry has this key. -/
theorem lookup_of_mem {α β : Type} [BEq α] [LawfulBEq α] {l : List (α × β)} {k : α} {v : β}
    (distinct : (l.map (·.1)).Nodup) (h : (k, v) ∈ l) : l.lookup k = some v := by
  induction l with
  | nil => exact absurd h List.not_mem_nil
  | cons p l ih =>
    obtain ⟨hp, hl⟩ := List.nodup_cons.1 distinct
    rw [List.lookup_cons]
    rcases List.mem_cons.1 h with rfl | h
    · rw [beq_self_eq_true]
    · have hne : k ≠ p.1 := by
        rintro rfl
        exact hp (List.mem_map.2 ⟨_, h, rfl⟩)
      rw [beq_false_of_ne hne]
      exact ih hl h

theorem mem_of_lookup {α β : Type} [BEq α] [LawfulBEq α] {l : List (α × β)} {k : α} {v : β}
    (h : l.lookup k = some v) : (k, v) ∈ l := by
  obtain ⟨before, after, rfl, _⟩ := List.lookup_eq_some_iff.1 h
  exact List.mem_append_right _ List.mem_cons_self

namespace Linkage

variable {headers : List Header} {h : Header} {linkage : Linkage} {resolved : List Resolved}
  {r : Resolved} {id module : SourceId}

/-- Linking resolves every header, settles families, owners and prefixes from what this gives, and
records how the sources relate. -/
theorem steps_of_ofHeaders (hok : ofHeaders headers = .ok linkage) :
    ∃ resolved, headers.mapM (resolve headers) = .ok resolved
      ∧ linkage.families = familiesOf resolved
      ∧ resolved.mapM (linkSource headers (familiesOf resolved)) = .ok linkage.sources
      ∧ linkage.graph = .ofLinks (identifiers resolved)
          (statedLinks resolved ++ ownerLinks linkage.sources) := by
  obtain ⟨_, _, hok⟩ := Result.bind_eq_ok.1 hok
  obtain ⟨resolved, hresolved, hok⟩ := Result.bind_eq_ok.1 hok
  obtain ⟨_, _, hok⟩ := Result.bind_eq_ok.1 hok
  obtain ⟨sources, hsources, hok⟩ := Result.bind_eq_ok.1 hok
  cases hok
  exact ⟨resolved, hresolved, rfl, hsources, rfl⟩

theorem headers_of_resolved (hresolved : headers.mapM (resolve headers) = .ok resolved) :
    resolved.map (·.header) = headers := by
  rw [← List.forall₂_eq_eq_eq, List.forall₂_map_left_iff]
  exact (Result.mapM_eq_ok.1 hresolved).flip.imp fun _ _ => header_of_resolve

/-! ## Families -/

/-- An include selects a submodule. -/
theorem submodule_of_resolveInclude {i : Include} (hi : resolveInclude headers h i = .ok id) :
    ∃ s ∈ headers, s.isModule = false ∧ s.id = id := by
  unfold resolveInclude at hi
  split at hi
  · cases hi
  · rename_i s hs
    have hmem : s ∈ headers.filter fun h => h.isModule == false && h.id.name == i.submodule := by
      unfold select? at hs
      dsimp only at hs
      split at hs
      · exact List.mem_of_find?_eq_some hs
      · exact List.mem_of_getLast? hs
    obtain ⟨hmem, hrole⟩ := List.mem_filter.1 hmem
    rw [Bool.and_eq_true, beq_iff_eq] at hrole
    split at hi
    · exact ⟨s, hmem, hrole.1, Except.ok.inj hi⟩
    · cases hi

theorem submodule_of_mem_includesOf (hresolved : headers.mapM (resolve headers) = .ok resolved)
    (hid : id ∈ includesOf resolved module) :
    ∃ s ∈ headers, s.isModule = false ∧ s.id = id := by
  unfold includesOf at hid
  cases hfound : resolved.find? fun r => r.header.id = module with
  | none =>
    rw [hfound] at hid
    exact absurd hid List.not_mem_nil
  | some r =>
    rw [hfound] at hid
    obtain ⟨h, _, hr⟩ :=
      Result.exists_of_mem_mapM hresolved (List.mem_of_find?_eq_some hfound)
    obtain ⟨_, _, hr⟩ := Result.bind_eq_ok.1 hr
    obtain ⟨includes, hincludes, hr⟩ := Result.bind_eq_ok.1 hr
    cases hr
    obtain ⟨i, _, hi⟩ := Result.exists_of_mem_mapM hincludes hid
    exact submodule_of_resolveInclude hi

/-- What a family holds besides its module is included by something, and so is a submodule. -/
theorem submodule_of_mem_family (hresolved : headers.mapM (resolve headers) = .ok resolved)
    (hid : id ∈ family resolved module) :
    id = module ∨ ∃ s ∈ headers, s.isModule = false ∧ s.id = id := by
  rcases List.mem_cons.1 hid with rfl | hid
  · exact .inl rfl
  · right
    have hclosure := of_decide_eq_true (List.mem_filter.1 hid).2
    obtain ⟨p, hp, _, path⟩ := Digraph.mem_closure_iff.1 hclosure
    rcases Relation.ReflTransGen.cases_tail path with rfl | ⟨q, _, edge⟩
    · exact submodule_of_mem_includesOf hresolved hp
    · exact submodule_of_mem_includesOf hresolved edge.1

theorem mem_familiesOf {members : List SourceId}
    (h : (module, members) ∈ familiesOf resolved) :
    (∃ r ∈ resolved, r.header.isModule = true ∧ r.header.id = module)
      ∧ members = family resolved module := by
  obtain ⟨r, hr, heq⟩ := List.mem_map.1 h
  obtain ⟨hr, hmodule⟩ := List.mem_filter.1 hr
  cases heq
  exact ⟨⟨r, hr, hmodule, rfl⟩, rfl⟩

/-- The families stand in the order of their modules. -/
theorem pairwise_familiesOf (sorted : headers.Pairwise fun a b => a.id.le b.id)
    (hresolved : headers.mapM (resolve headers) = .ok resolved) :
    (familiesOf resolved).Pairwise fun a b => a.1.le b.1 = true := by
  rw [← headers_of_resolved hresolved, List.pairwise_map] at sorted
  exact List.pairwise_map.2 (sorted.filter _)

/-! ## Owners -/

theorem owner_of_linkSource {families : Families} {s : LinkedSource}
    (hs : linkSource headers families r = .ok s) :
    owner headers families s.header = .ok s.owner := by
  obtain ⟨o, ho, hs⟩ := Result.bind_eq_ok.1 hs
  obtain ⟨table, _, hs⟩ := Result.bind_eq_ok.1 hs
  cases hs
  exact ho

/-- A submodule that some family holds is owned by the last module with such a family. -/
theorem getLast?_of_owner {families : Families} {f : SourceId × List SourceId}
    (howner : owner headers families h = .ok id) (hsubmodule : h.isModule = false)
    (hf : f ∈ families) (hmem : h.id ∈ f.2) :
    ∃ g, (families.filter fun f => h.id ∈ f.2).getLast? = some g ∧ g.1 = id := by
  unfold owner at howner
  rw [if_neg (by rw [hsubmodule]; exact Bool.false_ne_true)] at howner
  cases hlast : (families.filter fun f => h.id ∈ f.2).getLast? with
  | none =>
    have hempty := List.getLast?_eq_none_iff.1 hlast
    have hfilter : f ∈ families.filter fun f => h.id ∈ f.2 :=
      List.mem_filter.2 ⟨hf, decide_eq_true hmem⟩
    rw [hempty] at hfilter
    exact absurd hfilter List.not_mem_nil
  | some g =>
    rw [hlast] at howner
    exact ⟨g, rfl, Except.ok.inj howner⟩

/-! ## Prefix tables -/

/-- Binding prefixes keeps those that are bound, adds those of the imports, and binds none twice. -/
theorem bindPrefixes_eq_ok {table bound : List (String × SourceId)}
    {imports : List (String × SourceId)} (distinct : (table.map (·.1)).Nodup)
    (hok : bindPrefixes id table imports = .ok bound) :
    (bound.map (·.1)).Nodup ∧ bound.Perm (table ++ imports) := by
  induction imports generalizing table with
  | nil =>
    cases hok
    rw [List.append_nil]
    exact ⟨distinct, .refl _⟩
  | cons i imports ih =>
    rw [bindPrefixes] at hok
    split at hok
    · cases hok
    · rename_i hnew
      have hnot : i.1 ∉ table.map (·.1) := by
        intro hmem
        obtain ⟨p, hp, hkey⟩ := List.mem_map.1 hmem
        rw [← hkey, lookup_of_mem (k := p.1) (v := p.2) distinct hp] at hnew
        exact hnew rfl
      have hnodup : ((i :: table).map (·.1)).Nodup := List.nodup_cons.2 ⟨hnot, distinct⟩
      obtain ⟨hnodup, hperm⟩ := ih hnodup hok
      exact ⟨hnodup, hperm.trans List.perm_middle.symm⟩

/-- A linked source has its own prefix, which is bound to its owner, and those of its imports, each
once. -/
theorem prefixes_of_linkSource {families : Families} {s : LinkedSource}
    (hs : linkSource headers families r = .ok s) : (s.prefixes.map (·.1)).Nodup
      ∧ s.prefixes.Perm ((s.header.ownPrefix, s.owner) :: r.imports) := by
  obtain ⟨o, _, hs⟩ := Result.bind_eq_ok.1 hs
  obtain ⟨sorted, hsorted, hs⟩ := Result.bind_eq_ok.1 hs
  cases hs
  obtain ⟨bound, hbound, hsorted⟩ := Result.bind_eq_ok.1 hsorted
  cases hsorted
  have hown : ([(r.header.ownPrefix, o)].map (·.1)).Nodup := List.nodup_singleton _
  obtain ⟨hnodup, hbound⟩ := bindPrefixes_eq_ok hown hbound
  have hperm := List.mergeSort_perm bound fun a b : String × SourceId => (compare a.1 b.1).isLE
  exact ⟨(hperm.map (·.1)).nodup_iff.2 hnodup, hperm.trans hbound⟩

/-- The own prefix of a source is bound to its owner, and those of its imports to what they
import. -/
theorem lookup_of_linkSource {families : Families} {s : LinkedSource} {p : String × SourceId}
    (hs : linkSource headers families r = .ok s)
    (hp : p ∈ (s.header.ownPrefix, s.owner) :: r.imports) : s.prefixes.lookup p.1 = some p.2 := by
  obtain ⟨hnodup, hperm⟩ := prefixes_of_linkSource hs
  exact lookup_of_mem hnodup (hperm.mem_iff.2 hp)

end Linkage

namespace DeclaredModel

variable {order : Bool} {sources : List Source} {model : DeclaredModel} {s m : DeclaredSource}
  {module : SourceId}

/-- What linking has settled of the sources of a declared model. -/
theorem linked_of_ofSources (declared : ofSources order sources = .ok model) :
    ∃ headers resolved, headers.mapM (Linkage.resolve headers) = .ok resolved
      ∧ headers.Pairwise (fun a b => a.id.le b.id) ∧ (headers.map (·.id)).Nodup
      ∧ model.sources.map (·.header) = headers
      ∧ model.families = Linkage.familiesOf resolved
      ∧ ∀ s ∈ model.sources, ∃ r ∈ resolved,
          Linkage.linkSource headers (Linkage.familiesOf resolved) r = .ok s.toLinkedSource := by
  obtain ⟨pairs, linkage, hpairs, hlinkage, hdeclared, hfamilies, _⟩ := ofSources_eq_ok.1 declared
  obtain ⟨pairs', linkage', hpairs', hlinkage', hsources⟩ := toLinkedSource_of_ofSources declared
  cases hpairs.symm.trans hpairs'
  cases hlinkage.symm.trans hlinkage'
  obtain ⟨hdistinct, hheaders⟩ := Linkage.ofHeaders_eq_ok hlinkage
  obtain ⟨resolved, hresolved, hfamiliesOf, hlinked, _⟩ := Linkage.steps_of_ofHeaders hlinkage
  have hsorted := pairwise_readHeaders hpairs
  refine ⟨_, resolved, hresolved, hsorted, Linkage.nodup_of_checkDistinct hsorted hdistinct, ?_,
    hfamilies.symm.trans hfamiliesOf, fun s hs => ?_⟩
  · rw [← hheaders, ← hsources, List.map_map]
    rfl
  · have hmem : s.toLinkedSource ∈ linkage.sources := hsources ▸ List.mem_map_of_mem hs
    exact Result.exists_of_mem_mapM hlinked hmem

/-! ## Families -/

/-- The source of an identifier is the one that has it. -/
theorem source?_id (declared : ofSources order sources = .ok model) (hs : s ∈ model.sources) :
    model.source? s.id = some s := by
  cases hfound : model.source? s.id with
  | none =>
    have hnot := List.find?_eq_none.1 hfound s hs
    rw [decide_eq_true rfl] at hnot
    exact absurd rfl hnot
  | some x =>
    obtain ⟨hx, hid⟩ := mem_of_source? hfound
    rw [eq_of_id_eq declared hx hs hid]

/-- A module has one family. -/
theorem nodup_families (declared : ofSources order sources = .ok model) :
    (model.families.map (·.1)).Nodup := by
  obtain ⟨headers, resolved, hresolved, _, hnodup, _, hfamilies, _⟩ := linked_of_ofSources declared
  have hread := Linkage.headers_of_resolved hresolved
  rw [hfamilies, Linkage.familiesOf, List.map_map]
  rw [← hread, List.map_map] at hnodup
  exact hnodup.sublist (List.filter_sublist.map _)

/-- A family holds the sources that linking has put there. -/
theorem mem_family_iff (declared : ofSources order sources = .ok model) : s ∈ model.family module
    ↔ s ∈ model.sources ∧ ∃ members, (module, members) ∈ model.families ∧ s.id ∈ members := by
  constructor
  · intro hs
    refine ⟨mem_of_family hs, ?_⟩
    obtain ⟨id, hid, hsource⟩ := List.mem_filterMap.1 hs
    obtain ⟨_, rfl⟩ := mem_of_source? hsource
    cases hlookup : model.families.lookup module with
    | none =>
      rw [hlookup] at hid
      exact absurd hid List.not_mem_nil
    | some members =>
      rw [hlookup] at hid
      exact ⟨members, mem_of_lookup hlookup, hid⟩
  · rintro ⟨hs, members, hmembers, hid⟩
    refine List.mem_filterMap.2 ⟨s.id, ?_, source?_id declared hs⟩
    rw [lookup_of_mem (nodup_families declared) hmembers]
    exact hid

/-- A family holds its module and otherwise submodules. -/
theorem isModule_iff_of_mem_family (declared : ofSources order sources = .ok model)
    (hs : s ∈ model.family module) : s.header.isModule = true ↔ s.id = module := by
  obtain ⟨headers, resolved, hresolved, _, hnodup, hheaders, hfamilies, _⟩ :=
    linked_of_ofSources declared
  obtain ⟨_, members, hmembers, hid⟩ := (mem_family_iff declared).1 hs
  rw [hfamilies] at hmembers
  obtain ⟨⟨r, hr, hmodule, rfl⟩, rfl⟩ := Linkage.mem_familiesOf hmembers
  have hmem : s.header ∈ headers := hheaders ▸ List.mem_map_of_mem (mem_of_family hs)
  -- headers are told apart by their identifiers
  have hsame : ∀ h ∈ headers, h.id = s.id → h = s.header := fun h hh heq =>
    List.inj_on_of_nodup_map hnodup hh hmem heq
  constructor
  · intro htrue
    rcases Linkage.submodule_of_mem_family hresolved hid with heq | ⟨h, hh, hfalse, heq⟩
    · exact heq
    · rw [hsame h hh heq, htrue] at hfalse
      cases hfalse
  · intro heq
    obtain ⟨h, hh, hread⟩ := Result.exists_of_mem_mapM hresolved hr
    rw [Linkage.header_of_resolve hread] at hmodule heq
    rw [← hsame h hh heq.symm]
    exact hmodule

/-- The families that hold a source are those of modules. -/
theorem exists_module_of_mem_family (declared : ofSources order sources = .ok model)
    (hs : s ∈ model.family module) : ∃ m ∈ model.modules, m.id = module := by
  obtain ⟨headers, resolved, hresolved, _, _, hheaders, hfamilies, _⟩ :=
    linked_of_ofSources declared
  obtain ⟨_, members, hmembers, _⟩ := (mem_family_iff declared).1 hs
  rw [hfamilies] at hmembers
  obtain ⟨⟨r, hr, hmodule, rfl⟩, _⟩ := Linkage.mem_familiesOf hmembers
  obtain ⟨h, hh, hread⟩ := Result.exists_of_mem_mapM hresolved hr
  rw [Linkage.header_of_resolve hread] at hmodule ⊢
  rw [← hheaders] at hh
  obtain ⟨m, hm, rfl⟩ := List.mem_map.1 hh
  exact ⟨m, List.mem_filter.2 ⟨hm, hmodule⟩, rfl⟩

/-! ## Owners and prefixes -/

theorem owner_of_isModule (declared : ofSources order sources = .ok model)
    (hs : s ∈ model.sources) (hmodule : s.header.isModule = true) : s.owner = s.id := by
  obtain ⟨headers, resolved, _, _, _, _, _, hlinked⟩ := linked_of_ofSources declared
  obtain ⟨r, _, hr⟩ := hlinked s hs
  have howner := Linkage.owner_of_linkSource hr
  rw [Linkage.owner, if_pos hmodule] at howner
  exact (Except.ok.inj howner).symm

/-- The latest module whose family holds a source owns it. -/
theorem owner_of_latest (declared : ofSources order sources = .ok model)
    (hs : s ∈ model.family module)
    (latest : ∀ m ∈ model.modules, s ∈ model.family m.id → m.id.le module = true) :
    s.owner = module := by
  have hsource := mem_of_family hs
  by_cases hmodule : s.header.isModule = true
  · rw [owner_of_isModule declared hsource hmodule]
    exact (isModule_iff_of_mem_family declared hs).1 hmodule
  · obtain ⟨headers, resolved, hresolved, hsorted, hnodup, hheaders, hfamilies, hlinked⟩ :=
      linked_of_ofSources declared
    obtain ⟨r, _, hr⟩ := hlinked s hsource
    obtain ⟨_, members, hmembers, hid⟩ := (mem_family_iff declared).1 hs
    rw [hfamilies] at hmembers
    obtain ⟨g, hlast, hg⟩ := Linkage.getLast?_of_owner (Linkage.owner_of_linkSource hr)
      (Bool.eq_false_iff.2 hmodule) hmembers hid
    have hordered := Linkage.pairwise_familiesOf hsorted hresolved
    obtain ⟨hgfamily, hgid⟩ := List.mem_filter.1 (List.mem_of_getLast? hlast)
    have hlater : module.le s.owner = true := by
      have hmem : (module, members)
          ∈ (Linkage.familiesOf resolved).filter fun f => s.header.id ∈ f.2 :=
        List.mem_filter.2 ⟨hmembers, decide_eq_true hid⟩
      have hrel := (hordered.filter _).rel_getLast_of_rel_getLast_getLast hmem
        (SourceId.le_refl _)
      rwa [(List.getLast_eq_iff_getLast?_eq_some _).2 hlast, hg] at hrel
    have hearlier : s.owner.le module = true := by
      rw [← hg]
      have hgs : s ∈ model.family g.1 :=
        (mem_family_iff declared).2 ⟨hsource, g.2, hfamilies ▸ hgfamily, of_decide_eq_true hgid⟩
      obtain ⟨m, hm, hmid⟩ := exists_module_of_mem_family declared hgs
      rw [← hmid] at hgs ⊢
      exact latest m hm hgs
    exact SourceId.le_antisymm hearlier hlater

/-- The own prefix of a source names its owner. -/
theorem prefixTarget?_ownPrefix (declared : ofSources order sources = .ok model)
    (hs : s ∈ model.sources) : s.prefixTarget? s.header.ownPrefix = some s.owner := by
  obtain ⟨_, _, _, _, _, _, _, hlinked⟩ := linked_of_ofSources declared
  obtain ⟨r, _, hr⟩ := hlinked s hs
  exact Linkage.lookup_of_linkSource hr List.mem_cons_self

end DeclaredModel

end YangSchema
