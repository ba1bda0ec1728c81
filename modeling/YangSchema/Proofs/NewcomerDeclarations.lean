import YangSchema.Proofs.ImportLookup
import YangSchema.Proofs.NewcomerLinkage

/-!
# Declaring with a newcomer

A declared model with a newcomer has all that it has without: the same sources with the same
bindings, the same families, the same imports (`DeclaredModel.Newcomer`). An extension that the
newcomer declares is none to which a keyword of another source can be bound, for no prefix there
stands for the newcomer. So, what a name refers to without the newcomer, it refers to with it
(`DeclaredModel.Newcomer.resolve_of_ok`).
-/

namespace YangSchema

namespace DeclaredModel

/-! ## Reading -/

theorem Reads.unique {source : Source} {p q : Header × Statement} (hp : Reads source p)
    (hq : Reads source q) : p = q :=
  Prod.ext (Except.ok.inj (hp.1.symm.trans hq.1)) (hp.2.trans hq.2.symm)

section

variable {sources : List Source} {source : Source} {pairs pairs' : List (Header × Statement)}
  {u : Header}

/-- Reading another source with the others gives, besides what they give, its own header. -/
theorem perm_readHeaders (hread : readHeaders sources = .ok pairs)
    (hread' : readHeaders (source :: sources) = .ok pairs')
    (hu : Header.ofSource source = .ok u) : pairs'.Perm ((u, source.root) :: pairs) := by
  obtain ⟨read, hreads, rfl⟩ := readHeaders_eq_ok.1 hread
  obtain ⟨read', hreads', rfl⟩ := readHeaders_eq_ok.1 hread'
  cases hreads' with
  | @cons _ p _ rest hp hrest =>
    have hsame : p = (u, source.root) := hp.unique ⟨hu, rfl⟩
    subst hsame
    have hunique : Relator.RightUnique Reads := fun _ _ _ => Reads.unique
    cases List.right_unique_forall₂' hunique hrest hreads
    exact (List.mergeSort_perm _ _).trans ((List.mergeSort_perm _ _).symm.cons _)

/-- Without that header they are as they are read without that source. -/
theorem filter_readHeaders (hread : readHeaders sources = .ok pairs)
    (hread' : readHeaders (source :: sources) = .ok pairs')
    (hu : Header.ofSource source = .ok u) (hother : ∀ p ∈ pairs, p.1.id ≠ u.id)
    (distinct : ((pairs.map (·.1)).map (·.id)).Nodup) :
    pairs'.filter (fun p => p.1.id ≠ u.id) = pairs := by
  have hperm : (pairs'.filter fun p => p.1.id ≠ u.id).Perm pairs := by
    refine ((perm_readHeaders hread hread' hu).filter _).trans (.of_eq ?_)
    rw [List.filter_cons_of_neg (by simp), List.filter_eq_self]
    exact fun p hp => decide_eq_true (hother p hp)
  have hsorted := List.pairwise_map.1 (pairwise_readHeaders hread)
  have hsorted' := List.pairwise_map.1 (pairwise_readHeaders hread')
  rw [List.map_map] at distinct
  refine hperm.eq_of_pairwise (fun p q hp hq hpq hqp => ?_) (hsorted'.filter _) hsorted
  exact List.inj_on_of_nodup_map distinct (hperm.mem_iff.1 hp) hq (SourceId.le_antisymm hpq hqp)

/-- A source that is a module has the header of a module, of its name. -/
theorem isModule_of_ofSource (hu : Header.ofSource source = .ok u)
    (hmodule : source.root.isNamed "module" = true) : u.isModule = true := by
  obtain ⟨isModule, hread⟩ := Header.readFrom_of_ofSource hu
  cases isModule with
  | true =>
    have hrole := hread.role
    unfold Header.roleAndPrefix at hrole
    obtain ⟨uri, _, hrole⟩ := Result.bind_eq_ok.1 hrole
    obtain ⟨own, _, hrole⟩ := Result.bind_eq_ok.1 hrole
    have hmade : Role.module uri = u.role := congrArg Prod.fst (Except.ok.inj hrole)
    unfold Header.isModule
    rw [← hmade]
  | false =>
    have hkeyword := (Bool.and_eq_true_iff.1 hread.keyword).2
    rw [beq_iff_eq.1 (Bool.and_eq_true_iff.1 hmodule).2] at hkeyword
    cases hkeyword

theorem name_of_ofSource (hu : Header.ofSource source = .ok u) :
    source.root.argument = some u.id.name := by
  obtain ⟨_, hread⟩ := Header.readFrom_of_ofSource hu
  exact hread.name

/-- Another module, of a name that no source has, is a newcomer. -/
theorem newcomer_of_readHeaders {linkage linkage' : Linkage}
    (hread : readHeaders sources = .ok pairs)
    (hread' : readHeaders (source :: sources) = .ok pairs')
    (hlinkage : Linkage.ofHeaders (pairs.map (·.1)) = .ok linkage)
    (hlinkage' : Linkage.ofHeaders (pairs'.map (·.1)) = .ok linkage')
    (hu : Header.ofSource source = .ok u) (hmodule : source.root.isNamed "module" = true)
    (hname : ∀ v ∈ sources, v.root.argument ≠ source.root.argument) :
    pairs'.filter (fun p => p.1.id ≠ u.id) = pairs
      ∧ Linkage.Newcomer (pairs.map (·.1)) u (pairs'.map (·.1)) := by
  have hsorted := pairwise_readHeaders hread
  have hsorted' := pairwise_readHeaders hread'
  have hnames : ∀ p ∈ pairs, p.1.id.name ≠ u.id.name := by
    intro p hp heq
    obtain ⟨read, hreads, rfl⟩ := readHeaders_eq_ok.1 hread
    obtain ⟨v, hv, hpv⟩ := Result.exists_of_mem_mapM (mapM_of_forall₂_reads hreads).1
      (List.mem_map_of_mem (List.mem_mergeSort.1 hp))
    apply hname v hv
    rw [name_of_ofSource hu, ← heq, name_of_ofSource hpv]
  have hothers := filter_readHeaders hread hread' hu
    (fun p hp heq => hnames p hp (congrArg SourceId.name heq))
    (Linkage.nodup_of_checkDistinct hsorted (Linkage.ofHeaders_eq_ok hlinkage).1)
  refine ⟨hothers, ⟨hsorted', ?_, ?_, isModule_of_ofSource hu hmodule, ?_, ?_⟩⟩
  · exact Linkage.nodup_of_checkDistinct hsorted' (Linkage.ofHeaders_eq_ok hlinkage').1
  · exact List.mem_map.2 ⟨_, (perm_readHeaders hread hread' hu).mem_iff.2 List.mem_cons_self, rfl⟩
  · rw [← hothers, List.filter_map]
    rfl
  · exact List.forall_mem_map.2 hnames

end

end DeclaredModel

/-! ## Binding -/

namespace Extensions

variable {linked : List (LinkedSource × Statement)} {q : LinkedSource × Statement → Bool}
  {module : SourceId} {name : String}

/-- The extensions of a module are declared by the sources that it owns. -/
theorem mem_ofSources_filter_iff (hq : ∀ l ∈ linked, l.1.owner = module → q l = true) :
    (module, name) ∈ ofSources (linked.filter q) ↔ (module, name) ∈ ofSources linked := by
  rw [mem_ofSources_iff, mem_ofSources_iff]
  constructor
  · rintro ⟨l, hl, howner, hname⟩
    exact ⟨l, List.mem_of_mem_filter hl, howner, hname⟩
  · rintro ⟨l, hl, howner, hname⟩
    exact ⟨l, List.mem_filter.2 ⟨hl, hq l hl howner⟩, howner, hname⟩

end Extensions

/-- Binding a source depends on the extensions of the modules for which its prefixes stand. -/
theorem Declaration.ofStatement_congr {extensions extensions' : Extensions} {s : LinkedSource}
    (h : ∀ p module, s.prefixes.lookup p = some module → ∀ name,
      (module, name) ∈ extensions ↔ (module, name) ∈ extensions') (root : Statement) :
    ofStatement extensions s root = ofStatement extensions' s root := by
  have hkeyword : bindKeyword extensions s = bindKeyword extensions' s := by
    funext head
    unfold bindKeyword
    cases head.keyword.qualifier with
    | none => rfl
    | some p =>
      cases hp : s.prefixes.lookup p with
      | none => simp only [hp]
      | some module => simp only [hp, h p module hp]
  unfold ofStatement
  rw [hkeyword]

namespace DeclaredModel

/-- A declared model has one module more than another. Apart from that module, its sources and
families are the same, as is what they import or include; the module is in no family but its own,
where it is alone. -/
structure Newcomer (model : DeclaredModel) (u : SourceId) (model' : DeclaredModel) : Prop where
  sources : model'.sources.filter (fun s => s.id ≠ u) = model.sources
  families : model'.families.filter (fun f => f.1 ≠ u) = model.families
  alone : (u, [u]) ∈ model'.families
  outside : ∀ f ∈ model.families, u ∉ f.2
  links : ∀ id ≠ u, ∀ kind, model'.graph.linksFrom id kind = model.graph.linksFrom id kind

section

variable {order : Bool} {sources : List Source} {source : Source} {model model' : DeclaredModel}
  {pairs pairs' : List (Header × Statement)} {linkage linkage' : Linkage} {u : Header}
  {declared declared' : List DeclaredSource}

/-- What goes with a linked source goes back to a header that was read, and forward to a declared
source. -/
theorem of_mem_linked (hlinkage : Linkage.ofHeaders (pairs.map (·.1)) = .ok linkage)
    (hdeclare : declare order (linkage.sources.zip (pairs.map (·.2))) = .ok declared)
    {l : LinkedSource × Statement} (hl : l ∈ linkage.sources.zip (pairs.map (·.2))) :
    l.1.header ∈ pairs.map (·.1) ∧ ∃ s ∈ declared, s.toLinkedSource = l.1 := by
  constructor
  · rw [← map_linked hlinkage]
    exact List.mem_map_of_mem (List.mem_map_of_mem hl)
  · have hmem := List.mem_map_of_mem (f := Prod.fst) hl
    rw [← (declare_eq_ok hdeclare).1] at hmem
    exact List.mem_map.1 hmem

/-- Without the newcomer, the linked sources go with the same statements. -/
theorem filter_linked (hlinkage' : Linkage.ofHeaders (pairs'.map (·.1)) = .ok linkage')
    (hothers : pairs'.filter (fun p => p.1.id ≠ u.id) = pairs)
    (hsources : linkage'.sources.filter (fun s => s.header.id ≠ u.id) = linkage.sources) :
    (linkage'.sources.zip (pairs'.map (·.2))).filter (fun l => l.1.header.id ≠ u.id)
      = linkage.sources.zip (pairs.map (·.2)) := by
  have hlength := congrArg List.length (Linkage.ofHeaders_eq_ok hlinkage').2
  rw [List.length_map, List.length_map] at hlength
  apply List.zip_of_prod
  · have hfst : (linkage'.sources.zip (pairs'.map (·.2))).map Prod.fst = linkage'.sources :=
      List.map_fst_zip (by simp [hlength])
    rw [← hsources, ← congrArg (List.filter _) hfst, List.filter_map]
    rfl
  · have hmap := congrArg (List.filter fun p => p.1.id ≠ u.id) (map_linked hlinkage')
    rw [hothers, List.filter_map] at hmap
    rw [← hmap, List.map_map]
    rfl

section

variable (hdeclared : ofSources order sources = .ok model)
  (hdeclared' : ofSources order (source :: sources) = .ok model')
  (hlinkage : Linkage.ofHeaders (pairs.map (·.1)) = .ok linkage)
  (hlinkage' : Linkage.ofHeaders (pairs'.map (·.1)) = .ok linkage')
  (hdeclare : declare order (linkage.sources.zip (pairs.map (·.2))) = .ok model.sources)
  (hdeclare' : declare order (linkage'.sources.zip (pairs'.map (·.2))) = .ok model'.sources)
  (hu : Linkage.Newcomer (pairs.map (·.1)) u (pairs'.map (·.1)))
  {l : LinkedSource × Statement}

include hdeclared hlinkage hdeclare hu in
/-- No prefix of another source stands for the newcomer. -/
theorem target_ne {p : String} {module : SourceId}
    (hl : l ∈ linkage.sources.zip (pairs.map (·.2))) (hp : l.1.prefixes.lookup p = some module) :
    module ≠ u.id := by
  obtain ⟨_, s, hs, hsl⟩ := of_mem_linked hlinkage hdeclare hl
  rw [← hsl] at hp
  obtain ⟨m, hm, rfl⟩ := exists_module_of_prefixTarget? hdeclared hs hp
  have hmem := List.mem_map_of_mem (f := (·.toLinkedSource)) (List.mem_of_mem_filter hm)
  rw [(declare_eq_ok hdeclare).1] at hmem
  obtain ⟨k, hk, hkm⟩ := List.mem_map.1 hmem
  have hid := hu.id_ne (of_mem_linked hlinkage hdeclare hk).1
  rw [hkm] at hid
  exact hid

include hdeclared' hlinkage' hdeclare' hu in
/-- The newcomer owns itself. -/
theorem id_ne_of_owner_ne (hl : l ∈ linkage'.sources.zip (pairs'.map (·.2)))
    (howner : l.1.owner ≠ u.id) : l.1.header.id ≠ u.id := by
  intro hid
  obtain ⟨hheader, s, hs, hsl⟩ := of_mem_linked hlinkage' hdeclare' hl
  have hnew := List.inj_on_of_nodup_map hu.distinct hheader hu.registered hid
  rw [← hsl] at howner hnew
  have hown := owner_of_isModule hdeclared' hs (by rw [hnew]; exact hu.isModule)
  exact howner (hown.trans (congrArg Header.id hnew))

include hdeclared hdeclared' hlinkage hlinkage' hdeclare hdeclare' hu in
/-- Another source is bound as it is without the newcomer. -/
theorem ofStatement_of_newcomer
    (hlinked : (linkage'.sources.zip (pairs'.map (·.2))).filter (fun l => l.1.header.id ≠ u.id)
      = linkage.sources.zip (pairs.map (·.2)))
    (hl : l ∈ linkage.sources.zip (pairs.map (·.2))) (root : Statement) :
    Declaration.ofStatement (.ofSources (linkage.sources.zip (pairs.map (·.2)))) l.1 root
      = Declaration.ofStatement (.ofSources (linkage'.sources.zip (pairs'.map (·.2)))) l.1
          root := by
  apply Declaration.ofStatement_congr
  intro p module hp name
  rw [← hlinked]
  apply Extensions.mem_ofSources_filter_iff
  rintro k hk rfl
  exact decide_eq_true (id_ne_of_owner_ne hdeclared' hlinkage' hdeclare' hu hk
    (target_ne hdeclared hlinkage hdeclare hu hl hp))

end

/-- Declaring another module of a name that no source has adds a newcomer to the model. -/
theorem newcomer_of_ofSources (hdeclared : ofSources order sources = .ok model)
    (hdeclared' : ofSources order (source :: sources) = .ok model')
    (hmodule : source.root.isNamed "module" = true)
    (hname : ∀ v ∈ sources, v.root.argument ≠ source.root.argument) :
    ∃ u, Header.ofSource source = .ok u ∧ Newcomer model u.id model' := by
  obtain ⟨pairs, linkage, hread, hlinkage, hdeclare, hfamilies, hgraph⟩ :=
    ofSources_eq_ok.1 hdeclared
  obtain ⟨pairs', linkage', hread', hlinkage', hdeclare', hfamilies', hgraph'⟩ :=
    ofSources_eq_ok.1 hdeclared'
  obtain ⟨u, hu⟩ : ∃ u, Header.ofSource source = .ok u := by
    obtain ⟨read, hreads, _⟩ := readHeaders_eq_ok.1 hread'
    cases hreads with
    | cons hp _ => exact ⟨_, hp.1⟩
  obtain ⟨hothers, hnewcomer⟩ :=
    newcomer_of_readHeaders hread hread' hlinkage hlinkage' hu hmodule hname
  obtain ⟨hsources, hfamily, halone, houtside, hlinks⟩ := hnewcomer.linked hlinkage hlinkage'
  rw [hfamilies, hfamilies'] at hfamily
  rw [hfamilies'] at halone
  rw [hfamilies] at houtside
  rw [hgraph, hgraph'] at hlinks
  have hlinked := filter_linked hlinkage' hothers hsources
  refine ⟨u, hu, ?_, hfamily, halone, houtside, hlinks⟩
  refine filter_eq_of_forall₂ hlinked (forall₂_declare hdeclare) (forall₂_declare hdeclare') ?_ ?_
  · rintro l hl ⟨s, root⟩ ⟨s', root'⟩ ⟨rfl, hroot⟩ ⟨rfl, hroot'⟩
    rw [ofStatement_of_newcomer hdeclared hdeclared' hlinkage hlinkage' hdeclare hdeclare'
      hnewcomer hlinked hl, hroot'] at hroot
    cases hroot
    rfl
  · rintro l _ s ⟨hs, _⟩
    rw [← hs]
    rfl

end

/-! ## Looking up -/

namespace Newcomer

variable {model model' : DeclaredModel} {u id module : SourceId} {s : DeclaredSource} {kind : Kind}
  {name : String} {g : Definition} (hu : Newcomer model u model')

include hu

theorem mem_iff : s ∈ model.sources ↔ s ∈ model'.sources ∧ s.id ≠ u := by
  rw [← hu.sources, List.mem_filter, decide_eq_true_iff]

theorem modules_others : model'.modules.filter (fun s => s.id ≠ u) = model.modules := by
  rw [modules, modules, ← hu.sources, List.filter_filter, List.filter_filter]
  apply List.filter_congr
  intro s _
  exact Bool.and_comm _ _

theorem source?_eq (hid : id ≠ u) : model'.source? id = model.source? id := by
  unfold source?
  rw [← hu.sources, List.find?_filter]
  congr 1
  funext s
  by_cases hs : s.id = id
  · simp [hs, hid]
  · simp [hs]

theorem lookup_families (hmodule : module ≠ u) :
    model'.families.lookup module = model.families.lookup module := by
  rw [← hu.families]
  generalize model'.families = families
  induction families with
  | nil => rfl
  | cons f fs ih =>
    obtain ⟨id, members⟩ := f
    by_cases hid : id = u
    · subst hid
      rw [List.filter_cons_of_neg (by simp), ← ih, List.lookup_cons, beq_false_of_ne hmodule]
    · rw [List.filter_cons_of_pos (by simpa using hid), List.lookup_cons, List.lookup_cons, ih]

theorem family_eq (hmodule : module ≠ u) : model'.family module = model.family module := by
  unfold family
  rw [hu.lookup_families hmodule]
  cases hmembers : model.families.lookup module with
  | none => rfl
  | some members =>
    have houtside := hu.outside _ (mem_of_lookup hmembers)
    apply List.filterMap_congr
    intro id hid
    exact hu.source?_eq (ne_of_mem_of_not_mem hid houtside)

/-- A module with a source at whose top something stands is not the newcomer. -/
theorem atTop?_of_some (h : Definition.atTop? model kind name module = some g) :
    Definition.atTop? model' kind name module = some g := by
  obtain ⟨s, hs, _⟩ := List.exists_of_findSome?_eq_some h
  have hmodule : module ≠ u := by
    rintro rfl
    unfold family at hs
    cases hmembers : model.families.lookup module with
    | none =>
      rw [hmembers] at hs
      exact absurd hs List.not_mem_nil
    | some members =>
      have hmem := mem_of_lookup hmembers
      rw [← hu.families] at hmem
      exact of_decide_eq_true (List.mem_filter.1 hmem).2 rfl
  unfold Definition.atTop?
  rwa [hu.family_eq hmodule]

theorem visible?_of_some {scope : Scope}
    (h : Definition.visible? model kind name scope = some g) :
    Definition.visible? model' kind name scope = some g := by
  unfold Definition.visible? at h ⊢
  cases hframes : Definition.inFrames? kind name scope.module scope.frames with
  | none =>
    rw [hframes] at h
    exact hu.atTop?_of_some h
  | some d =>
    rw [hframes] at h
    exact h

/-- What a name refers to without the newcomer, it refers to with it. -/
theorem resolve_of_ok {reference : Declared} {scope : Scope}
    (h : Definition.resolve model s kind reference scope = .ok g) :
    Definition.resolve model' s kind reference scope = .ok g := by
  rw [Definition.resolve_eq_ok] at h ⊢
  unfold Definition.refersTo? at h ⊢
  cases hsplit : Text.splitOnce? ':' (reference.argument.getD "") with
  | none =>
    rw [hsplit] at h
    exact hu.visible?_of_some h
  | some parts =>
    obtain ⟨p, bare⟩ := parts
    rw [hsplit] at h
    dsimp only at h ⊢
    cases hp : s.prefixTarget? p with
    | none =>
      rw [hp] at h
      cases h
    | some module =>
      rw [hp] at h
      dsimp only at h ⊢
      split at h
      · rw [if_pos ‹_›]
        exact hu.visible?_of_some h
      · rw [if_neg ‹_›]
        exact hu.atTop?_of_some h

/-- There are as many definitions as without the newcomer, or more. -/
theorem countOfKind_le : model.countOfKind kind ≤ model'.countOfKind kind := by
  unfold countOfKind
  rw [← hu.sources]
  exact (List.filter_sublist.flatMap _).length_le

end Newcomer

end DeclaredModel

end YangSchema
