import YangSchema.Proofs.GroupingCycle
import YangSchema.Proofs.SharedSources
import YangSchema.Proofs.TypeCalls
import YangSchema.Proofs.TypeResolver

/-!
# What has been resolved before

Types are resolved with a table of the typedefs that have been resolved before in the same module.
A resolver that knows fewer of them, or none, comes to the same types (`tracks_lags`): what the
table holds it resolves again, entering the typedefs one in another, and as the table is grounded it
meets none of those that are being resolved (`Grounded.yields`).

This takes that no typedef is seen in two modules. Where a submodule is in the families of two
modules, what its typedefs refer to depends on the family, but the table does not tell them apart:
`type_depends_on_memo` is a leaf whose type is that of the wrong family because of a type that was
resolved before.
-/

namespace YangSchema

open EffectiveType (InType Names TypeRefers)
open TypeResolver (Action Restores Simulates Tracks)
open TypeTable (Extends)

namespace TypeTable

variable {t u : TypeTable} {key : SourceId × Nat} {type : EffectiveType}

theorem Extends.lookup_eq_none (h : Extends t u) (hnone : u.lookup key = none) :
    t.lookup key = none := by
  rw [Option.eq_none_iff_forall_ne_some] at hnone ⊢
  exact fun type hlookup => hnone type (h key type hlookup)

/-- A table keeps what another one holds with one of its own types added. -/
theorem Extends.cons_of_lookup (h : Extends t u) (hlookup : u.lookup key = some type) :
    Extends ((key, type) :: t) u := by
  intro k type' hk
  rw [List.lookup_cons] at hk
  by_cases heq : k = key
  · rw [heq, beq_self_eq_true] at hk
    cases hk
    rw [heq]
    exact hlookup
  · rw [beq_false_of_ne heq] at hk
    exact h k type' hk

end TypeTable

namespace Expansion

variable {order : Bool} {sources : List Source} {e : Expansion} {k : Manner} {c : TypeCall}
  {source : DeclaredSource} {scope : Scope} {d : Declaration} {g : Definition}
  {t u before : TypeTable} {type : EffectiveType} {pending : List Definition.Pending}
  {deeper : Definition → Action EffectiveType} {depth : Nat} {r : TypeResolver}

/-! ## What the table holds is found out again -/

/-- A resolver is resolving the typedefs `pending` and knows nothing that the table `u` does not
hold. -/
def KnowsWithin (pending : List Definition.Pending) (u : TypeTable) (r : TypeResolver) : Prop :=
  Restores pending r ∧ Extends r.resolved u

/-- A resolver finds out the type of a typedef that the table `t` holds. -/
def Yields (e : Expansion) (deeper : Definition → Action EffectiveType) (depth : Nat)
    (pending : List Definition.Pending) (t u : TypeTable) : Prop :=
  ∀ g type r, TypedefOf e g → t.lookup g.key = some type → KnowsWithin pending u r →
    ∃ s, (TypeResolver.typedef e.model deeper depth g).outcome r = (.ok type, s)
      ∧ KnowsWithin pending u s

/-- Where the types of typedefs are found out, so are those of `type` statements that name them. -/
theorem Yields.simulates (hyields : Yields e deeper depth pending before u)
    (hnames : ∀ c g, InType d c → Names e.model source scope c g → TypedefOf e g) :
    Simulates (fun t r => t = before ∧ KnowsWithin pending u r) (fun _ => False) (fun _ => True)
      (EffectiveType.ofDeclaration e.model (known e) source scope d)
      (TypeResolver.ofDeclaration e.model (TypeResolver.typedef e.model deeper depth) source scope
        d) := by
  refine Simulates.ofDeclaration (fun _ _ _ => trivial) d fun c g hc hg => ⟨?_, ?_⟩
  · rintro _ r type v ⟨hbegin, hwithin⟩ hok
    rw [hbegin] at hok
    obtain ⟨hlookup, hend⟩ := known_eq_ok hok
    obtain ⟨s, hs, hwithin'⟩ := hyields g type r (hnames c g hc hg) hlookup hwithin
    exact ⟨s, hs, hend, hwithin'⟩
  · exact fun _ _ _ _ hfalse => hfalse.elim

/-- What a grounded table holds of a typedef, a resolver finds out that is resolving none of the
typedefs of the table. -/
theorem Grounded.yields (once : SeenOnce e)
    (declared : DeclaredModel.ofSources order sources = .ok e.model) (ht : Grounded e t)
    (htu : Extends t u) (hdepth : t.length ≤ depth)
    (hapart : ∀ key ∈ pending.map (·.1), t.lookup key = none) :
    Yields e deeper depth pending t u := by
  induction depth generalizing t pending with
  | zero =>
    intro g type r _ hlookup
    rw [List.length_eq_zero_iff.1 (Nat.le_zero.1 hdepth)] at hlookup
    cases hlookup
  | succ depth ih =>
    rintro g type r hg hlookup ⟨rfl, hwithin⟩
    cases hknown : r.resolved.lookup g.key with
    | some type' =>
      cases (hwithin _ _ hknown).symm.trans (htu _ _ hlookup)
      exact ⟨r, TypeResolver.typedef_of_lookup hknown, rfl, hwithin⟩
    | none =>
      have hnot : ¬ g.isPending r.inProgress = true := by
        intro hpending
        cases (hapart _ (Definition.isPending_iff.1 hpending)).symm.trans hlookup
      obtain ⟨before, x, base, hbefore, hlength, hextends, hnone, hx, hbase, rfl⟩ :=
        ht.exists_entry once declared hg hlookup
      -- the statement is resolved from what was known before the typedef, with the typedef pushed
      have hpushed : ∀ key ∈ (r.inProgress ++ [entry g]).map (·.1), before.lookup key = none := by
        rw [List.map_append]
        intro key hkey
        rcases List.mem_append.1 hkey with hkey | hkey
        · exact hextends.lookup_eq_none (hapart key hkey)
        · rw [List.mem_singleton.1 hkey]
          exact hnone
      have hstatement := (ih hbefore (hextends.trans htu) (by omega) hpushed).simulates
        fun c h hc hh => hg.refers ⟨x, c, hx, hc, hh⟩
      obtain ⟨s, hs, _, hstack, hsub⟩ :=
        hstatement.follows before (r.push g) base before ⟨rfl, rfl, hwithin⟩ hbase
      refine ⟨_, TypeResolver.typedef_of_ok hknown hnot hx hs, ?_, ?_⟩
      · unfold Restores TypeResolver.pop at *
        rw [hstack, List.dropLast_concat]
      · exact hsub.cons_of_lookup (htu _ _ hlookup)

/-! ## Keeping up with less -/

/-- The typedefs of a grounded table are different ones. -/
theorem Grounded.keys (declared : DeclaredModel.ofSources order sources = .ok e.model)
    (ht : Grounded e t) :
    (t.map (·.1)).Nodup ∧ t.map (·.1) ⊆ Definition.keys e.model .typedef := by
  induction ht with
  | nil => exact ⟨List.nodup_nil, List.nil_subset _⟩
  | @cons t g x base _ hnone hg _ _ ih =>
    constructor
    · refine List.nodup_cons.2 ⟨fun hmem => ?_, ih.1⟩
      obtain ⟨p, hp, hkey⟩ := List.mem_map.1 hmem
      exact absurd hkey.symm (by simpa using List.lookup_eq_none_iff.1 hnone p hp)
    · exact List.cons_subset.2 ⟨(hg.valid declared).key_mem, ih.2⟩

/-- Known typedefs and those that are being resolved are together no more than there are. -/
theorem Grounded.length_add_le (declared : DeclaredModel.ofSources order sources = .ok e.model)
    (ht : Grounded e t) (hp : Definition.Stacked e.model .typedef pending)
    (hapart : ∀ key ∈ pending.map (·.1), t.lookup key = none) :
    t.length + pending.length ≤ e.model.countOfKind .typedef := by
  obtain ⟨hnodup, hkeys⟩ := ht.keys declared
  have hdistinct : (t.map (·.1) ++ pending.map (·.1)).Nodup := by
    refine List.nodup_append.2 ⟨hnodup, hp.distinct, ?_⟩
    rintro key hkey _ hmem rfl
    obtain ⟨p, hp, rfl⟩ := List.mem_map.1 hkey
    have hne := List.lookup_eq_none_iff.1 (hapart _ hmem) p hp
    rw [bne_self_eq_false] at hne
    cases hne
  have hlength :=
    Definition.length_le_countOfKind hdistinct (List.append_subset.2 ⟨hkeys, hp.known⟩)
  rwa [List.length_append, List.length_map, List.length_map] at hlength

/-- A resolver may know less than a grounded table; neither knows what is being resolved. -/
structure Lags (e : Expansion) (pending : List Definition.Pending) (t : TypeTable)
    (r : TypeResolver) : Prop where
  grounded : Grounded e t
  stack : Restores pending r
  within : Extends r.resolved t
  apart : ∀ key ∈ pending.map (·.1), t.lookup key = none

theorem tracks_lags (once : SeenOnce e)
    (declared : DeclaredModel.ofSources order sources = .ok e.model)
    (deeper : Definition → Action EffectiveType) :
    Tracks e.model deeper (TypedefOf e) (Lags e) where
  valid hg := hg.valid declared
  refers hg href := hg.refers href
  stack hI := hI.stack
  unknown hI hnone := hI.within.lookup_eq_none hnone
  known := by
    intro pending t r g type depth hI hg hp hdepth hlookup
    have hlength := hI.grounded.length_add_le declared hp hI.apart
    have hyields : Yields e deeper depth pending t t :=
      hI.grounded.yields once declared (.refl t) (by omega) hI.apart
    obtain ⟨s, hs, hstack, hwithin⟩ := hyields g type r hg hlookup ⟨hI.stack, hI.within⟩
    exact ⟨s, hs, hI.grounded, hstack, hwithin, hI.apart⟩
  entered := by
    intro pending t r g hI hg hnone
    refine ⟨hI.grounded, ?_, hI.within, ?_⟩
    · have hstack := hI.stack
      unfold Restores TypeResolver.push at *
      rw [hstack]
    · rw [List.map_append]
      intro key hkey
      rcases List.mem_append.1 hkey with hkey | hkey
      · exact hI.apart key hkey
      · rw [List.mem_singleton.1 hkey]
        exact hnone
  left := by
    intro pending t v r s g type n hI hg hI' hok
    have hmem : g.key ∈ (pending ++ [entry g]).map (·.1) := by
      rw [List.map_append]
      exact List.mem_append_right _ List.mem_cons_self
    have hnone : v.lookup g.key = none := hI'.apart _ hmem
    have hnot : g.key ∉ pending.map (·.1) := by
      intro hpending
      rcases EffectiveType.ofDefinition_eq_ok hok with ⟨hlookup, _⟩ | ⟨_, hnot, _⟩
      · cases (hI.apart _ hpending).symm.trans hlookup
      · exact hnot hpending
    refine ⟨Grounded.ofDefinition hg n pending t type _ hI.grounded hok, ?_, ?_, ?_⟩
    · have hstack := hI'.stack
      unfold Restores TypeResolver.pop at *
      rw [hstack, List.dropLast_concat]
    · refine Extends.cons_of_lookup (hI'.within.trans ((Extends.refl v).cons hnone)) ?_
      exact List.lookup_cons_self
    · intro key hkey
      rw [List.lookup_cons, beq_false_of_ne fun heq : key = g.key => hnot (heq ▸ hkey)]
      refine hI'.apart key ?_
      rw [List.map_append]
      exact List.mem_append_left _ hkey

/-! ## Independence -/

/-- The type of a statement does not depend on what has been resolved before: where no typedef is
seen in two modules, every `type` statement that is copied while a module is instantiated has the
result that it has with an empty table, and every other one that comes to be resolved on the way,
the type that it has with an empty table. -/
theorem types_independent_of_memo {model : DeclaredModel} {module : SourceId}
    (declared : DeclaredModel.ofSources order sources = .ok model)
    (once : SeenOnce ⟨model, module⟩) :
    (∀ k d t, Copies ⟨model, module⟩ k d t → d.is .type = true → k.isMember = false →
      (EffectiveType.resolve model k.source k.scope d t).map (·.1)
        = (EffectiveType.resolve model k.source k.scope d []).map (·.1))
    ∧ ∀ c d t type u, Resolves ⟨model, module⟩ c d t → c.run ⟨model, module⟩ d t = .ok (type, u) →
      (EffectiveType.resolve model c.source c.scope d []).map (·.1) = .ok type := by
  -- what is done when the depth is used up does not matter, as it never is
  let deeper : Definition → Action EffectiveType := fun g => throw (EffectiveType.cycleError [] g)
  let start : TypeResolver := ⟨[], []⟩
  have hlags {t : TypeTable} (ht : Grounded ⟨model, module⟩ t) :
      Lags ⟨model, module⟩ [] t start :=
    ⟨ht, rfl, fun _ _ h => (by cases h), fun _ h => absurd h List.not_mem_nil⟩
  have hresolver {source : DeclaredSource} {scope : Scope} {d : Declaration} {t : TypeTable}
      {depth : Nat} (hd : Processed ⟨model, module⟩ source scope d) (htype : d.is .type = true)
      (ht : Grounded ⟨model, module⟩ t) (hdepth : model.countOfKind .typedef < depth) :
      ((TypeResolver.ofDeclaration model (TypeResolver.typedef model deeper depth) source scope
        d).outcome start).1 = (EffectiveType.resolve model source scope d t).map (·.1) :=
    ((tracks_lags once declared deeper).simulates_ofDeclaration .nil (by simpa using hdepth)
      (by simp) fun x g hx hg => .of_inType hd htype hx hg).result_eq (hlags ht)
  constructor
  · intro k d t hcopies htype _
    have hdepth := Nat.lt_succ_self (model.countOfKind .typedef)
    exact (hresolver (.copied hcopies) htype hcopies.grounded hdepth).symm.trans
      (hresolver (.copied hcopies) htype .nil hdepth)
  · intro c d t type u hc hok
    obtain ⟨hd, htype⟩ := hc.processed
    have hu : Grounded ⟨model, module⟩ u :=
      Grounded.ofDeclaration hd htype _ _ t type u hc.grounded hok
    -- with the table that is left, the statement is resolved without entering a typedef
    have hreplays := (EffectiveType.ofDeclaration_replays
      (fun g => EffectiveType.ofDefinition_replays _ _ 0 [] g) d t type u hok).2 u (.refl u)
    let depth := model.countOfKind .typedef + 1 + u.length
    have hyields : Yields ⟨model, module⟩ deeper depth [] u u :=
      hu.yields once declared (.refl u) (Nat.le_add_left _ _)
        fun _ h => absurd h List.not_mem_nil
    obtain ⟨s, hs, _⟩ := (hyields.simulates fun x g hx hg => hc.typedefOf hx hg).follows u start
      type u ⟨rfl, rfl, fun _ _ h => (by cases h)⟩ hreplays
    rw [← hresolver hd htype .nil (by omega : model.countOfKind .typedef < depth), hs]

/-! ### Examples -/

/-- The type of the leaf of a name at the top of a module, with the manner in which it is copied. -/
def leafType? (e : Expansion) (name : String) : Option (Manner × Declaration) := do
  let s ← (e.model.family e.module).head?
  let leaf ← Definition.among? .leaf name s.root
  let x ← leaf.firstChild? .type
  return ((Manner.top e s).below leaf, x)

/-- Where the module is instantiated, the type comes to be resolved, and has the result that it has
with all typedefs that are known at the end. -/
theorem copies_of_leafType? {name : String} {x : Declaration} {nodes : List Node}
    (hok : e.nodes [] = .ok (nodes, u)) (h : e.leafType? name = some (k, x)) :
    ∃ t, Copies e k x t ∧ x.is .type = true ∧ k.isMember = false
      ∧ (EffectiveType.resolve e.model k.source k.scope x t).map (·.1)
        = (EffectiveType.resolve e.model k.source k.scope x u).map (·.1) := by
  obtain ⟨s, hs, h⟩ := Option.bind_eq_some_iff.1 h
  obtain ⟨leaf, hleaf, h⟩ := Option.bind_eq_some_iff.1 h
  obtain ⟨x, hx, h⟩ := Option.bind_eq_some_iff.1 h
  cases h
  obtain ⟨hmem, hkind, _⟩ := Definition.mem_of_among? hleaf
  have hbinding := Declaration.is_iff.1 hkind
  have hbody : isBody leaf.label.binding = true := by rw [hbinding]; rfl
  obtain ⟨_, htop⟩ := exists_copies_top hok (List.mem_of_mem_head? hs) hmem
    (Bool.or_eq_true_iff.2 (.inr hbody))
  have htype : x.is .type = true := List.find?_some (p := (Declaration.is · .type)) hx
  obtain ⟨t, hcopies⟩ := htop.exists_under hok (not_isUses_of_binding hbinding (by decide))
    (List.mem_of_find?_eq_some hx)
  have hmember : ((Manner.top e s).below leaf).isMember = false := by
    unfold Manner.below
    rw [hbinding]
    rfl
  refine ⟨t, hcopies, htype, hmember, ?_⟩
  -- the type is resolved, and comes out again at the end
  obtain ⟨copied, w, hcopied, hwu⟩ := hcopies.succeeds hok
  obtain ⟨type, v, parts, hresolved, hparts, _⟩ := Manner.mapM_of_not_uses
    (not_isUses_of_binding (Declaration.is_iff.1 htype) (by decide)) hcopied
  have hvw := (Building.Replays.mapM (fun c _ => Manner.copy_replays _ c) v parts w hparts).1
  unfold typeOf at hresolved
  rw [htype, hmember] at hresolved
  obtain ⟨type, _, hresolve, hreturn⟩ := Building.bind_eq_ok.1 hresolved
  cases hreturn
  have hreplay := (EffectiveType.resolve_replays x t type v hresolve).2 u (hvw.trans hwu)
  rw [hresolve, hreplay]
  rfl

/-- A module with two leaves whose type is a typedef of its submodule. -/
def repeatedType : List Source :=
  [.bareModule "a" [
      .bare "include" "s" [],
      .bare "leaf" "l" [.bare "type" "t" []],
      .bare "leaf" "m" [.bare "type" "t" []]],
    ⟨"s", .bare "submodule" "s" [.bare "belongs-to" "a" [.bare "prefix" "a" []],
      .bare "typedef" "t" [.bare "type" "int8" []]]⟩]

/-- How it is instantiated. -/
def repeatedTypeExpansion : Expansion := ⟨.ofLinkage twinLinkage repeatedType, ⟨"a", none⟩⟩

/-- What is evaluated of it: the sources can be declared, there are one module and one typedef, and
the second leaf has the type that the typedef is derived from. -/
theorem evaluated_repeatedType :
    DeclaredModel.canDeclare twinLinkage repeatedType = true
      ∧ repeatedTypeExpansion.model.modules.map (·.id) = [repeatedTypeExpansion.module]
      ∧ repeatedTypeExpansion.model.countOfKind .typedef = 1
      ∧ (do
        let nodes ← (repeatedTypeExpansion.nodes []).toOption
        let (k, x) ← repeatedTypeExpansion.leafType? "m"
        let (type, _) ← (EffectiveType.resolve repeatedTypeExpansion.model k.source k.scope x
          nodes.2).toOption
        let g ← (Definition.resolve repeatedTypeExpansion.model k.source .typedef x.label
          k.scope).toOption
        return (type.base, g.qualifiedName, Builtin.ofName? (x.label.argument.getD "")))
          = some (.int8, "a:t", none) := by decide +kernel

theorem ofSources_repeatedType :
    DeclaredModel.ofSources true repeatedType = .ok repeatedTypeExpansion.model :=
  DeclaredModel.ofSources_eq_ofLinkage (by cbv) rfl (by cbv) evaluated_repeatedType.1

theorem unshared_repeatedType : repeatedTypeExpansion.model.Unshared := by
  obtain ⟨m, hmodules, _⟩ := List.map_eq_singleton_iff.1 evaluated_repeatedType.2.1
  exact DeclaredModel.unshared_of_length (by rw [hmodules, List.length_singleton])

/-- The type of the second leaf comes to be resolved. -/
theorem exists_repeatedType : ∃ k x t type g, Copies repeatedTypeExpansion k x t
    ∧ x.is .type = true ∧ k.isMember = false
    ∧ Names repeatedTypeExpansion.model k.source k.scope x g
    ∧ (EffectiveType.resolve repeatedTypeExpansion.model k.source k.scope x t).map (·.1)
      = .ok type := by
  obtain ⟨-, -, -, h⟩ := evaluated_repeatedType
  obtain ⟨⟨nodes, u⟩, hnodes, h⟩ := Option.bind_eq_some_iff.1 h
  obtain ⟨⟨k, x⟩, hleaf, h⟩ := Option.bind_eq_some_iff.1 h
  obtain ⟨⟨type, v⟩, hresolve, h⟩ := Option.bind_eq_some_iff.1 h
  obtain ⟨g, hg, h⟩ := Option.bind_eq_some_iff.1 h
  have hbase := congrArg (·.2.2) (Option.some.inj h)
  obtain ⟨t, hcopies, htype, hmember, hend⟩ :=
    copies_of_leafType? (Result.eq_ok_of_toOption hnodes) hleaf
  rw [Result.eq_ok_of_toOption hresolve] at hend
  exact ⟨k, x, t, type, g, hcopies, htype, hmember, ⟨hbase, Result.eq_ok_of_toOption hg⟩, hend⟩

/-- The second leaf has the type that it has without the first one. -/
theorem types_independent_of_memo_repeated : ∃ k x t type,
    Copies repeatedTypeExpansion k x t
      ∧ (EffectiveType.resolve repeatedTypeExpansion.model k.source k.scope x t).map (·.1)
        = .ok type
      ∧ (EffectiveType.resolve repeatedTypeExpansion.model k.source k.scope x []).map (·.1)
        = .ok type := by
  obtain ⟨k, x, t, type, _, hcopies, htype, hmember, _, hresolve⟩ := exists_repeatedType
  obtain ⟨hindependent, _⟩ := types_independent_of_memo ofSources_repeatedType
    (unshared_repeatedType.seenOnce ofSources_repeatedType repeatedTypeExpansion.module)
  exact ⟨k, x, t, type, hcopies, hresolve,
    (hindependent k x t hcopies htype hmember).symm.trans hresolve⟩

/-- Two revisions of a module with one submodule between them, whose typedef refers to one of the
module. The first revision has a leaf of this type as it is seen in its own family, and then one of
the type as it is seen in the family of the second revision. -/
def sharedTypes : List Source :=
  [.bareModule "a" [
      .bare "import" "a" [.bare "prefix" "p" [], .bare "revision-date" "2002-01-01" []],
      .bare "include" "s" [], .bare "revision" "2001-01-01" [],
      .bare "typedef" "x" [.bare "type" "int8" []],
      .bare "leaf" "l" [.bare "type" "t" []],
      .bare "leaf" "m" [.bare "type" "p:t" []]],
    .bareModule "a" [
      .bare "include" "s" [], .bare "revision" "2002-01-01" [],
      .bare "typedef" "x" [.bare "type" "string" []]],
    ⟨"s", .bare "submodule" "s" [.bare "belongs-to" "a" [.bare "prefix" "a" []],
      .bare "typedef" "t" [.bare "type" "x" []]]⟩]

/-- Their declared model. -/
def sharedTypesModel : DeclaredModel := .ofLinkage sharedLinkage sharedTypes

/-- What is evaluated of it: the sources can be declared, and the second leaf has the type of the
first one, but the other one from an empty table. -/
theorem evaluated_sharedTypes :
    DeclaredModel.canDeclare sharedLinkage sharedTypes = true
      ∧ (do
        let m ← sharedTypesModel.modules.head?
        let copied ← (nodes ⟨sharedTypesModel, m.id⟩ []).toOption
        let (k, x) ← leafType? ⟨sharedTypesModel, m.id⟩ "m"
        let (type, _) ← (EffectiveType.resolve sharedTypesModel k.source k.scope x
          copied.2).toOption
        let (fresh, _) ← (EffectiveType.resolve sharedTypesModel k.source k.scope x []).toOption
        return (type.base, fresh.base)) = some (.int8, .string) := by decide +kernel

theorem ofSources_sharedTypes : DeclaredModel.ofSources true sharedTypes = .ok sharedTypesModel :=
  DeclaredModel.ofSources_eq_ofLinkage (by cbv) rfl (by cbv) evaluated_sharedTypes.1

/-- Where two modules share a submodule, a type can depend on what has been resolved before: the
second leaf has the type of the first one, though that of its name is another. -/
theorem type_depends_on_memo : ∃ m k x t type fresh,
    DeclaredModel.ofSources true sharedTypes = .ok sharedTypesModel
      ∧ m ∈ sharedTypesModel.modules
      ∧ Copies ⟨sharedTypesModel, m.id⟩ k x t ∧ x.is .type = true ∧ k.isMember = false
      ∧ (EffectiveType.resolve sharedTypesModel k.source k.scope x t).map (·.1) = .ok type
      ∧ (EffectiveType.resolve sharedTypesModel k.source k.scope x []).map (·.1) = .ok fresh
      ∧ type.base = .int8 ∧ fresh.base = .string := by
  obtain ⟨-, h⟩ := evaluated_sharedTypes
  obtain ⟨m, hm, h⟩ := Option.bind_eq_some_iff.1 h
  obtain ⟨⟨nodes, u⟩, hnodes, h⟩ := Option.bind_eq_some_iff.1 h
  obtain ⟨⟨k, x⟩, hleaf, h⟩ := Option.bind_eq_some_iff.1 h
  obtain ⟨⟨type, v⟩, htype, h⟩ := Option.bind_eq_some_iff.1 h
  obtain ⟨⟨fresh, w⟩, hfresh, h⟩ := Option.bind_eq_some_iff.1 h
  obtain ⟨hbase, hfreshBase⟩ := Prod.mk.inj (Option.some.inj h)
  obtain ⟨t, hcopies, hkind, hmember, hend⟩ :=
    copies_of_leafType? (Result.eq_ok_of_toOption hnodes) hleaf
  rw [Result.eq_ok_of_toOption htype] at hend
  exact ⟨m, k, x, t, type, fresh, ofSources_sharedTypes, List.mem_of_mem_head? hm, hcopies, hkind,
    hmember, hend, by rw [Result.eq_ok_of_toOption hfresh]; rfl, hbase, hfreshBase⟩

end Expansion

end YangSchema
