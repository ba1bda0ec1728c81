import YangSchema.Proofs.LinkRelations

/-!
# Families and owners

Linking settles twice how modules and submodules belong together: by the family of every module and
by the owner of every submodule. The two agree (`Linkage.families_and_owners_agree`). A family is
what its module includes, directly or through others, and all of it has the name of the module; the
owner of a submodule is the latest module whose family holds it, if there is one, and in any case a
module of the name to which it belongs.

What a module includes can be collected with a stack, whatever includes what: the stack becomes
empty, and then all has been collected (`Digraph.exists_collect`).
-/

namespace YangSchema

namespace Digraph

variable {α : Type} [DecidableEq α] {next : α → List α} {unseen members stack : List α}

/-- Takes nodes from a stack, the top first: one that is new becomes a member, and its successors
are put on the stack. There is no result if the stack is not empty after `fuel` nodes. -/
def collect (next : α → List α) : (fuel : Nat) → (members stack : List α) → Option (List α)
  | _, members, [] => some members
  | 0, _, _ :: _ => none
  | fuel + 1, members, v :: stack =>
    if v ∈ members then collect next fuel members stack
    else collect next fuel (v :: members) ((next v).reverse ++ stack)

theorem mem_of_mem_closure {v : α} (hv : v ∈ closure next unseen stack) : v ∈ unseen := by
  obtain ⟨p, _, hp, path⟩ := mem_closure_iff.1 hv
  rcases Relation.ReflTransGen.cases_tail path with rfl | ⟨_, _, edge⟩
  · exact hp
  · exact edge.2

theorem mem_closure_reverse_iff {v : α} :
    v ∈ closure next unseen stack.reverse ↔ v ∈ closure next unseen stack := by
  simp only [mem_closure_iff, List.mem_reverse]

theorem mem_closure_cons_of_not_mem {v w : α} (hv : v ∉ unseen) :
    w ∈ closure next unseen (v :: stack) ↔ w ∈ closure next unseen stack := by
  simp only [mem_closure_iff, List.mem_cons, exists_eq_or_imp, hv, false_and, false_or]

/-- What a node that is new adds to the closure is itself and what its successors add. -/
theorem mem_closure_cons_of_mem {v w : α} (distinct : unseen.Nodup) (hv : v ∈ unseen) :
    w ∈ closure next unseen (v :: stack)
      ↔ w = v ∨ w ∈ closure next (unseen.erase v) ((next v).reverse ++ stack) := by
  have hgone : v ∉ unseen.erase v := fun h => ((distinct.mem_erase_iff).1 h).1 rfl
  rw [closure]
  have hfirst : (v :: stack).find? (· ∈ unseen) = some v :=
    List.find?_cons_of_pos (decide_eq_true hv)
  split
  · rename_i hnone
    rw [hfirst] at hnone
    cases hnone
  · rename_i u hu
    obtain rfl := Option.some.inj (hfirst.symm.trans hu)
    rw [List.mem_cons]
    apply or_congr_right
    -- the node is still pending there, which makes no difference any more
    simp only [mem_closure_iff, List.mem_append, List.mem_cons, List.mem_reverse]
    constructor
    · rintro ⟨p, hp | rfl | hp, hmem, path⟩
      · exact ⟨p, .inl hp, hmem, path⟩
      · exact absurd hmem hgone
      · exact ⟨p, .inr hp, hmem, path⟩
    · rintro ⟨p, hp | hp, hmem, path⟩
      · exact ⟨p, .inl hp, hmem, path⟩
      · exact ⟨p, .inr (.inr hp), hmem, path⟩

/-- With enough fuel the stack becomes empty, and the members are then those that there were and
what can be reached from the stack, each of them once. -/
theorem exists_collect (distinct : unseen.Nodup) (hmembers : members.Nodup)
    (hseen : ∀ v ∈ members, v ∉ unseen) (hstack : ∀ v ∈ stack, v ∈ members ∨ v ∈ unseen)
    (hnext : ∀ u, ∀ v ∈ next u, v ∈ members ∨ v ∈ unseen) :
    ∃ bound result, (∀ fuel, bound ≤ fuel → collect next fuel members stack = some result)
      ∧ result.Nodup ∧ ∀ v, v ∈ result ↔ v ∈ members ∨ v ∈ closure next unseen stack := by
  -- either there are fewer nodes to be seen or the stack is lower
  induction hlength : unseen.length using Nat.strong_induction_on
    generalizing unseen members stack with
  | _ n ih =>
    induction stack with
    | nil =>
      refine ⟨0, members, fun fuel _ => by rw [collect], hmembers, fun v => ?_⟩
      simp [mem_closure_iff]
    | cons v stack ihstack =>
      obtain ⟨hv, hstack⟩ := List.forall_mem_cons.1 hstack
      by_cases hmem : v ∈ members
      · obtain ⟨bound, result, hrun, hresult, hiff⟩ := ihstack hstack
        refine ⟨bound + 1, result, fun fuel hfuel => ?_, hresult, fun w => ?_⟩
        · obtain ⟨k, rfl⟩ : ∃ k, fuel = k + 1 := ⟨fuel - 1, by omega⟩
          rw [collect, if_pos hmem]
          exact hrun k (by omega)
        · rw [hiff, mem_closure_cons_of_not_mem (hseen v hmem)]
      · have hv := hv.resolve_left hmem
        have hmoved : ∀ w, w ∈ members ∨ w ∈ unseen → w ∈ v :: members ∨ w ∈ unseen.erase v := by
          rintro w (hw | hw)
          · exact .inl (List.mem_cons_of_mem v hw)
          · by_cases heq : w = v
            · exact .inl (heq ▸ List.mem_cons_self)
            · exact .inr ((List.mem_erase_of_ne heq).2 hw)
        have hless : (unseen.erase v).length < n := by
          have hpos := List.length_pos_of_mem hv
          rw [List.length_erase_of_mem hv]
          omega
        have hseen' : ∀ w ∈ v :: members, w ∉ unseen.erase v := by
          intro w hw hin
          obtain ⟨hne, hin⟩ := distinct.mem_erase_iff.1 hin
          rcases List.mem_cons.1 hw with rfl | hw
          · exact hne rfl
          · exact hseen w hw hin
        have hpushed : ∀ w ∈ (next v).reverse ++ stack, w ∈ v :: members ∨ w ∈ unseen.erase v := by
          intro w hw
          rcases List.mem_append.1 hw with hw | hw
          · exact hmoved w (hnext v w (List.mem_reverse.1 hw))
          · exact hmoved w (hstack w hw)
        obtain ⟨bound, result, hrun, hresult, hiff⟩ := ih _ hless (distinct.erase v)
          (List.nodup_cons.2 ⟨hmem, hmembers⟩) hseen' hpushed
          (fun u w hw => hmoved w (hnext u w hw)) rfl
        refine ⟨bound + 1, result, fun fuel hfuel => ?_, hresult, fun w => ?_⟩
        · obtain ⟨k, rfl⟩ : ∃ k, fuel = k + 1 := ⟨fuel - 1, by omega⟩
          rw [collect, if_neg hmem]
          exact hrun k (by omega)
        · rw [hiff, mem_closure_cons_of_mem distinct hv, List.mem_cons, or_assoc, or_left_comm]

end Digraph

namespace Linkage

open Relation

variable {headers : List Header} {h m : Header} {resolved : List Resolved} {linkage : Linkage}
  {id : SourceId}

/-- The family of a module, besides the module itself: the submodules that it includes, directly or
through others, in the order of their headers, which is that of their identifiers. All of them
belong to modules of the name of this one. -/
structure FamilyOf (headers : List Header) (m : Header) (members : List SourceId) : Prop where
  sublist : members.Sublist (headers.map (·.id))
  ascending : SourceId.Ascending members
  mem_iff : ∀ id, id ∈ members ↔ TransGen (Includes headers) m.id id
  submodules : ∀ s ∈ headers, s.id ∈ members → s.isModule = false
  moduleName : ∀ s ∈ headers, s.id ∈ m.id :: members → s.moduleName = m.id.name

/-- A submodule contributes to a module: one of the name to which it belongs, and the latest of
those whose family holds it, if there are any. -/
structure ContributesTo (headers : List Header) (families : Families) (s m : Header) : Prop where
  registered : m ∈ headers
  isModule : m.isModule = true
  name : s.belongsTo? = some m.id.name
  held : (∃ f ∈ families, s.id ∈ f.2) → ∃ f ∈ families, f.1 = m.id ∧ s.id ∈ f.2
  latest : ∀ f ∈ families, s.id ∈ f.2 → f.1.le m.id

theorem moduleName_of_isModule (hm : m.isModule = true) : m.moduleName = m.id.name := by
  rw [Header.moduleName, belongsTo?_eq_none_iff.2 hm]
  rfl

theorem belongsTo?_of_submodule (hm : m.isModule = false) : m.belongsTo? = some m.moduleName := by
  cases hbelongs : m.belongsTo? with
  | none =>
    rw [belongsTo?_eq_none_iff.1 hbelongs] at hm
    cases hm
  | some name =>
    rw [Header.moduleName, hbelongs]
    rfl

section Resolved

variable (sorted : headers.Pairwise fun a b => a.id.le b.id)
  (distinct : (headers.map (·.id)).Nodup)
  (hresolved : headers.mapM (resolve headers) = .ok resolved)

include sorted distinct hresolved

/-- What a module includes, directly or through others, belongs to modules of its name. -/
theorem moduleName_of_holds {s : Header} (hs : s ∈ headers) (holds : Holds headers m s.id) :
    s.moduleName = m.id.name := by
  have same := fun h hh => ((exists_resolve_eq_ok sorted distinct).1
    (Result.exists_mapM_eq_ok.1 ⟨resolved, hresolved⟩ h hh)).2
  obtain ⟨t, ht, hid, hname⟩ := moduleName_of_reflTransGen distinct same holds.registered holds.path
  obtain rfl := List.inj_on_of_nodup_map distinct ht hs hid
  rw [hname, moduleName_of_isModule holds.isModule]

/-- The family that linking settles for a module holds what it should, and can be collected with a
stack. -/
theorem exists_family_eq (hm : m ∈ headers) (hmodule : m.isModule = true) :
    ∃ members, family resolved m.id = m.id :: members ∧ FamilyOf headers m members
      ∧ ∃ bound collected, SourceId.sort collected = members ∧ ∀ fuel, bound ≤ fuel →
        Digraph.collect (includesOf resolved) fuel [] (includesOf resolved m.id).reverse
          = some collected := by
  have hids := identifiers_eq hresolved
  let members := (identifiers resolved).filter
    (· ∈ Digraph.closure (includesOf resolved) (identifiers resolved) (includesOf resolved m.id))
  have hmem : ∀ id, id ∈ members ↔ TransGen (Includes headers) m.id id :=
    fun _ => mem_members_iff sorted distinct hresolved
  have hsublist : members.Sublist (headers.map (·.id)) := hids ▸ List.filter_sublist
  have hascending : SourceId.Ascending members :=
    ((List.pairwise_map.2 sorted).and distinct).sublist hsublist
  refine ⟨members, rfl, ⟨hsublist, hascending, hmem, ?_, ?_⟩, ?_⟩
  · intro s hs hin
    -- the last include on the way selects a submodule
    obtain ⟨_, _, _, _, _, _, _, t, ht, hid⟩ := TransGen.tail'_iff.1 ((hmem s.id).1 hin)
    rw [← List.inj_on_of_nodup_map distinct ht.registered hs hid]
    exact ht.role
  · intro s hs hin
    have path := (mem_family_iff_reflTransGen sorted distinct hresolved).1 hin
    exact moduleName_of_holds sorted distinct hresolved hs ⟨hm, hmodule, path⟩
  · have hincluded : ∀ a, ∀ b ∈ includesOf resolved a, b ∈ ([] : List SourceId)
        ∨ b ∈ identifiers resolved := by
      intro a b hb
      rw [mem_includesOf_iff sorted distinct hresolved] at hb
      obtain ⟨_, _, _, _, _, s, hs, rfl⟩ := hb
      exact .inr (hids ▸ List.mem_map_of_mem hs.registered)
    obtain ⟨bound, collected, hrun, hnodup, hiff⟩ := Digraph.exists_collect
      (hids ▸ distinct) List.nodup_nil (fun _ h => absurd h List.not_mem_nil)
      (fun b hb => hincluded m.id b (List.mem_reverse.1 hb)) hincluded
    refine ⟨bound, collected, ?_, hrun⟩
    have hsame : collected.Perm members := by
      rw [List.perm_ext_iff_of_nodup hnodup (distinct.sublist hsublist)]
      intro id
      rw [hiff, List.mem_filter, decide_eq_true_iff, Digraph.mem_closure_reverse_iff]
      constructor
      · rintro (hnil | hin)
        · exact absurd hnil List.not_mem_nil
        · exact ⟨Digraph.mem_of_mem_closure hin, hin⟩
      · exact fun hin => .inr hin.2
    rw [SourceId.sort, SourceId.mergeSort_eq_of_perm (fun id => id) hsame (by simpa using hnodup)]
    exact List.mergeSort_of_pairwise (hascending.imp And.left)

/-- The owner that linking finds for a submodule is the module to which it contributes. -/
theorem exists_contributesTo {s : Header} {o : SourceId} (hs : s ∈ headers)
    (hsubmodule : s.isModule = false) (howner : owner headers (familiesOf resolved) s = .ok o) :
    ∃ m, m.id = o ∧ ContributesTo headers (familiesOf resolved) s m := by
  have holder : ∀ f, f ∈ familiesOf resolved ∧ s.id ∈ f.2
      ↔ ∃ m, Holds headers m s.id ∧ f = (m.id, family resolved m.id) :=
    fun f => mem_familiesOf_iff sorted distinct hresolved
  obtain ⟨m, howned, hid⟩ := exists_ownedBy sorted distinct hresolved hsubmodule howner
  obtain ⟨hm, hmodule⟩ := howned.isModule
  refine ⟨m, hid, hm, hmodule, ?_, ?_, ?_⟩
  · rw [belongsTo?_of_submodule hsubmodule]
    cases howned with
    | holder holds _ => rw [moduleName_of_holds sorted distinct hresolved hs holds]
    | namesake _ selects => rw [selects.name_eq]
  · rintro ⟨f, hf, hin⟩
    obtain ⟨c, hc, _⟩ := (holder f).1 ⟨hf, hin⟩
    cases howned with
    | holder holds _ =>
      obtain ⟨hfamily, hmem⟩ := (holder _).2 ⟨m, holds, rfl⟩
      exact ⟨_, hfamily, rfl, hmem⟩
    | namesake unheld _ => exact absurd hc (unheld c)
  · intro f hf hin
    obtain ⟨c, hc, rfl⟩ := (holder f).1 ⟨hf, hin⟩
    cases howned with
    | holder _ latest => exact latest c hc
    | namesake unheld _ => exact absurd hc (unheld c)

end Resolved

/-- **Families and owners of linked headers agree.** There is a family for every module and for
nothing else, and each of them is the module followed by what it includes, directly or through
others; a stack that starts with the includes of the module becomes empty when just that has been
collected. The owner of every submodule is the module to which it contributes. -/
theorem families_and_owners_agree (sorted : headers.Pairwise fun a b => a.id.le b.id)
    (hok : ofHeaders headers = .ok linkage) :
    (headers.map (·.id)).Nodup
      ∧ List.Forall₂ (fun m f => f.1 = m.id
          ∧ ∃ members, f.2 = m.id :: members ∧ FamilyOf headers m members)
        (headers.filter (·.isModule)) linkage.families
      ∧ (∃ resolved, headers.mapM (resolve headers) = .ok resolved
        ∧ ∀ f ∈ linkage.families, ∃ bound collected, f.2 = f.1 :: SourceId.sort collected
          ∧ ∀ fuel, bound ≤ fuel →
            Digraph.collect (includesOf resolved) fuel [] (includesOf resolved f.1).reverse
              = some collected)
      ∧ linkage.sources.map (·.header) = headers
      ∧ ∀ s ∈ linkage.sources, s.header.isModule = false →
        ∃ m, m.id = s.owner ∧ ContributesTo headers linkage.families s.header m := by
  obtain ⟨hdistinct, hheaders⟩ := ofHeaders_eq_ok hok
  have distinct := nodup_of_checkDistinct sorted hdistinct
  obtain ⟨resolved, hresolved, hfamilies, hsources, _⟩ := steps_of_ofHeaders hok
  have hfiltered : headers.filter (·.isModule)
      = (resolved.filter (·.header.isModule)).map (·.header) := by
    conv_lhs => rw [← headers_of_resolved hresolved, List.filter_map]
    rfl
  have hfamily : ∀ r ∈ resolved.filter (·.header.isModule), ∃ members,
      family resolved r.header.id = r.header.id :: members ∧ FamilyOf headers r.header members
      ∧ ∃ bound collected, SourceId.sort collected = members ∧ ∀ fuel, bound ≤ fuel →
        Digraph.collect (includesOf resolved) fuel [] (includesOf resolved r.header.id).reverse
          = some collected := by
    intro r hr
    obtain ⟨hr, hmodule⟩ := List.mem_filter.1 hr
    have hm : r.header ∈ headers := headers_of_resolved hresolved ▸ List.mem_map_of_mem hr
    exact exists_family_eq sorted distinct hresolved hm hmodule
  refine ⟨distinct, ?_, ⟨resolved, hresolved, ?_⟩, hheaders, ?_⟩
  · rw [hfamilies, familiesOf, hfiltered, List.forall₂_map_left_iff, List.forall₂_map_right_iff,
      List.forall₂_same]
    intro r hr
    obtain ⟨members, hmembers, hof, _⟩ := hfamily r hr
    exact ⟨rfl, members, hmembers, hof⟩
  · intro f hf
    rw [hfamilies] at hf
    obtain ⟨r, hr, rfl⟩ := List.mem_map.1 hf
    obtain ⟨members, hmembers, _, bound, collected, rfl, hrun⟩ := hfamily r hr
    exact ⟨bound, collected, hmembers, hrun⟩
  · intro s hs hsubmodule
    rw [hfamilies]
    obtain ⟨r, _, hlink⟩ := Result.exists_of_mem_mapM hsources hs
    have howner := owner_of_linkSource hlink
    have hregistered : s.header ∈ headers := hheaders ▸ List.mem_map_of_mem hs
    exact exists_contributesTo sorted distinct hresolved hregistered hsubmodule howner

/-- Two revisions of a module that include one submodule, this one another one; a third submodule is
included by none. -/
def sharedSubmodules : List Header :=
  let start : Location := ⟨"", 1, 1⟩
  let latest : Revision := ⟨2020, 1, 1, by decide⟩
  [⟨⟨"m", none⟩, .module "urn:m", .v1, "m", [], [⟨"s", none, start⟩], start⟩,
    ⟨⟨"m", some latest⟩, .module "urn:m", .v1, "m", [], [⟨"s", none, start⟩], start⟩,
    ⟨⟨"s", none⟩, .submodule "m", .v1, "m", [], [⟨"t", none, start⟩], start⟩,
    ⟨⟨"t", none⟩, .submodule "m", .v1, "m", [], [], start⟩,
    ⟨⟨"u", none⟩, .submodule "m", .v1, "m", [], [], start⟩]

theorem families_and_owners_agree_shared :
    sharedSubmodules.Pairwise (fun a b => a.id.le b.id)
      ∧ ∃ linkage, ofHeaders sharedSubmodules = .ok linkage
        ∧ ∀ s ∈ linkage.sources, s.header.isModule = false →
          ∃ m, m.id = s.owner ∧ ContributesTo sharedSubmodules linkage.families s.header m := by
  have sorted : sharedSubmodules.Pairwise fun a b => a.id.le b.id := by decide +kernel
  have linked : ∃ linkage, ofHeaders sharedSubmodules = .ok linkage := ⟨_, by cbv⟩
  obtain ⟨linkage, hok⟩ := linked
  obtain ⟨_, _, _, _, howners⟩ := families_and_owners_agree sorted hok
  exact ⟨sorted, linkage, hok, howners⟩

end Linkage

end YangSchema
