import YangSchema.Proofs.Declared
import YangSchema.Proofs.Replay
import YangSchema.Proofs.Restrictions

/-!
# Derived types narrow

A `type` statement that names a typedef is derived from the type of the typedef, which is derived
from the type that the `type` statement of the typedef names, and so on down to a built-in type
(`EffectiveType.TypeChain`). Along this chain every type narrows all those behind it
(`EffectiveType.Derivation`). The types of typedefs are kept in a table while a module is
instantiated; that every type in the table has come out of such a chain
(`EffectiveType.Sound`) is what resolving a type keeps.
-/

namespace YangSchema

open Building (Keeps)

namespace EffectiveType

variable {model : DeclaredModel} {defined : Definition → Building EffectiveType}
  {source : DeclaredSource} {scope : Scope} {s : Declaration} {ds : List Declaration}
  {depth : Nat} {pending : List Definition.Pending} {d : Definition} {derived : Bool}
  {t u : TypeTable} {ty dt : EffectiveType} {chain : List EffectiveType}

/-! ## Opening the resolution of a type -/

/-- A name is that of a built-in type, or that of a typedef, which is then resolved. -/
theorem named_eq_ok {reference : Declared}
    (h : named model defined source scope reference t = .ok ((ty, derived), u)) :
    (∃ base, Builtin.ofName? (reference.argument.getD "") = some base
        ∧ ty = { ofBuiltin base with name := reference.argument.getD "" }
        ∧ derived = false ∧ u = t)
      ∨ Builtin.ofName? (reference.argument.getD "") = none
        ∧ ∃ d dt, Definition.resolve model source .typedef reference scope = .ok d
          ∧ defined d t = .ok (dt, u) ∧ ty = { dt with name := reference.argument.getD "" }
          ∧ derived = true := by
  unfold named at h
  dsimp only at h
  cases hbase : Builtin.ofName? (reference.argument.getD "") with
  | some base =>
    rw [hbase] at h
    cases h
    exact .inl ⟨base, rfl, rfl, rfl, rfl⟩
  | none =>
    rw [hbase] at h
    obtain ⟨d, _, hlift, h⟩ := Building.bind_eq_ok.1 h
    obtain ⟨hd, rfl⟩ := Building.lift_eq_ok.1 hlift
    obtain ⟨dt, v, hdt, hreturn⟩ := Building.bind_eq_ok.1 h
    cases hreturn
    exact .inr ⟨rfl, d, dt, hd, hdt, rfl, rfl⟩

/-- A list without member types has none. -/
theorem membersOf_of_none (h : ∀ d ∈ ds, ¬ Declaration.is d .type = true) :
    membersOf model defined source scope ds t = .ok ([], t) := by
  induction ds with
  | nil =>
    rw [membersOf]
    rfl
  | cons d ds ih =>
    obtain ⟨hd, hds⟩ := List.forall_mem_cons.1 h
    rw [membersOf, if_neg hd]
    exact ih hds

/-- A `type` statement restricts the type that it names; one that names a typedef has no member
types, so that it finds out nothing else. -/
theorem ofDeclaration_eq_ok (h : ofDeclaration model defined source scope s t = .ok (ty, u)) :
    ∃ named derived v members,
      EffectiveType.named model defined source scope s.label t = .ok ((named, derived), v)
        ∧ membersOf model defined source scope s.children v = .ok (members, u)
        ∧ Restricts derived named ty ∧ (derived = true → u = v) := by
  obtain ⟨label, children⟩ := s
  rw [ofDeclaration] at h
  obtain ⟨⟨t₀, derived⟩, v, hnamed, h⟩ := Building.bind_eq_ok.1 h
  obtain ⟨t₁, _, hlift, h⟩ := Building.bind_eq_ok.1 h
  obtain ⟨hvalues, rfl⟩ := Building.lift_eq_ok.1 hlift
  obtain ⟨_, _, hlift, h⟩ := Building.bind_eq_ok.1 h
  obtain ⟨hcheck, rfl⟩ := Building.lift_eq_ok.1 hlift
  obtain ⟨members, w, hmembers, hlift⟩ := Building.bind_eq_ok.1 h
  obtain ⟨hreferences, rfl⟩ := Building.lift_eq_ok.1 hlift
  have hnone : derived = true → members = [] ∧ w = v := by
    intro hderived
    have hchild := TypeUse.firstChild?_of_checkMembers hcheck hderived
    rw [membersOf_of_none (List.find?_eq_none.1 hchild)] at hmembers
    cases hmembers
    exact ⟨rfl, rfl⟩
  refine ⟨t₀, derived, v, members, hnamed, hmembers, ?_, fun hd => (hnone hd).2⟩
  have hvalues' := TypeUse.restricts_restrictValues hvalues
  have hadded := restricts_addMembers (t := t₁) fun hd => (hnone hd).1
  exact (hvalues'.trans hadded).trans (TypeUse.restricts_restrictReferences hreferences)

theorem named_keeps {P : TypeTable → Prop} (hdefined : ∀ d, Keeps P (defined d))
    (reference : Declared) : Keeps P (named model defined source scope reference) := by
  unfold named
  dsimp only
  cases Builtin.ofName? (reference.argument.getD "") with
  | some base => exact .pure _
  | none =>
    refine (Keeps.lift _).bind fun d => ?_
    exact (hdefined d).bind fun type => .pure _

/-- What resolving a typedef keeps of the table is kept by resolving a `type` statement. -/
theorem ofDeclaration_keeps {P : TypeTable → Prop} (hdefined : ∀ d, Keeps P (defined d))
    (d : Declaration) : Keeps P (ofDeclaration model defined source scope d) := by
  induction d using Tree.induct with
  | step d ih =>
    obtain ⟨label, children⟩ := d
    have members : ∀ ds : List Declaration, ds ⊆ children →
        Keeps P (membersOf model defined source scope ds) := by
      intro ds
      induction ds with
      | nil =>
        intro _
        rw [membersOf]
        exact .pure []
      | cons c ds ihds =>
        intro hsub
        obtain ⟨hc, hds⟩ := List.cons_subset.1 hsub
        rw [membersOf]
        split
        · exact (ih c hc).bind fun type => (ihds hds).bind fun types => .pure _
        · exact ihds hds
    rw [ofDeclaration]
    refine (named_keeps hdefined label).bind fun named => ?_
    refine (Keeps.lift _).bind fun type => (Keeps.lift _).bind fun _ => ?_
    exact (members children (List.Subset.refl _)).bind fun types => .lift _

/-- A typedef has been resolved before, or it is resolved from its `type` statement and then
kept. -/
theorem ofDefinition_eq_ok (h : ofDefinition model depth pending d t = .ok (ty, u)) :
    t.lookup d.key = some ty ∧ u = t
      ∨ t.lookup d.key = none ∧ d.key ∉ pending.map (·.1)
        ∧ ∃ depth' s base v, depth = depth' + 1 ∧ typeStatement d = .ok s
          ∧ ofDeclaration model (ofDefinition model depth' (pending ++ [(d.key, d.qualifiedName)]))
              d.source d.inner s t = .ok (base, v)
          ∧ ty = derive d base ∧ u = (d.key, ty) :: v := by
  cases hlookup : t.lookup d.key with
  | some known =>
    rw [ofDefinition_of_lookup hlookup] at h
    cases h
    exact .inl ⟨rfl, rfl⟩
  | none =>
    by_cases hpending : d.isPending pending = true
    · rw [ofDefinition_of_pending hlookup hpending] at h
      cases h
    · cases depth with
      | zero =>
        rw [ofDefinition_zero hlookup] at h
        cases h
      | succ depth =>
        rw [ofDefinition_succ hlookup hpending] at h
        obtain ⟨s, _, hlift, h⟩ := Building.bind_eq_ok.1 h
        obtain ⟨hs, rfl⟩ := Building.lift_eq_ok.1 hlift
        obtain ⟨base, v, hbase, h⟩ := Building.bind_eq_ok.1 h
        cases h
        exact .inr ⟨rfl, fun hmem => hpending (Definition.isPending_iff.2 hmem), depth, s, base, v,
          rfl, hs, hbase, rfl, rfl⟩

/-- A typedef that is being resolved is not known before that is done. -/
theorem lookup_of_pending {key : SourceId × Nat} (hkey : key ∈ pending.map (·.1))
    (hnone : t.lookup key = none) (h : ofDefinition model depth pending d t = .ok (ty, u)) :
    u.lookup key = none := by
  induction depth generalizing pending d t ty u with
  | zero =>
    rcases ofDefinition_eq_ok h with ⟨_, rfl⟩ | ⟨_, _, _, _, _, _, hdepth, _⟩
    · exact hnone
    · cases hdepth
  | succ depth ih =>
    rcases ofDefinition_eq_ok h with ⟨_, rfl⟩ | ⟨_, hnot, _, s, base, v, hdepth, _, hbase, _, rfl⟩
    · exact hnone
    · cases hdepth
      have hkey' : key ∈ (pending ++ [(d.key, d.qualifiedName)]).map (·.1) := by
        rw [List.map_append]
        exact List.mem_append_left _ hkey
      have hv : v.lookup key = none := by
        refine ofDeclaration_keeps (P := fun t => t.lookup key = none) ?_ s _ base v hnone hbase
        intro d t ty u hnone h
        exact ih hkey' hnone h
      have hne : key ≠ d.key := by
        rintro rfl
        exact hnot hkey
      rw [List.lookup_cons, beq_false_of_ne hne]
      exact hv

/-! ## Chains of typedefs -/

/-- The types from which a `type` statement is derived, the nearest first: none where it names a
built-in type, else that of the typedef it names and those behind it. The type of a typedef is that
with which the table `t` knows it; it has been resolved by a definition with the same key. -/
inductive TypeChain (model : DeclaredModel) (t : TypeTable) :
    DeclaredSource → Scope → Declaration → List EffectiveType → Prop where
  | builtin {source : DeclaredSource} {scope : Scope} {s : Declaration} {base : Builtin} :
    Builtin.ofName? (s.label.argument.getD "") = some base → TypeChain model t source scope s []
  | typedef {source : DeclaredSource} {scope : Scope} {s s' : Declaration} {d d' : Definition}
    {dt : EffectiveType} {chain : List EffectiveType} :
    Builtin.ofName? (s.label.argument.getD "") = none →
    Definition.resolve model source .typedef s.label scope = .ok d →
    t.lookup d.key = some dt → d'.key = d.key → typeStatement d' = .ok s' →
    TypeChain model t d'.source d'.inner s' chain → TypeChain model t source scope s (dt :: chain)

theorem TypeChain.mono (htu : TypeTable.Extends t u) (h : TypeChain model t source scope s chain) :
    TypeChain model u source scope s chain := by
  induction h with
  | builtin hbase => exact .builtin hbase
  | typedef hbase hd hdt hkey hs _ ih => exact .typedef hbase hd (htu _ _ hdt) hkey hs ih

/-- The type of a `type` statement with the chain from which it is derived. Each of these types is
well-formed and narrows all behind it, and the type names as many typedefs as there are. -/
structure Derivation (model : DeclaredModel) (t : TypeTable) (source : DeclaredSource)
    (scope : Scope) (s : Declaration) (ty : EffectiveType) (chain : List EffectiveType) :
    Prop where
  links : TypeChain model t source scope s chain
  wellFormed : ∀ x ∈ ty :: chain, x.WellFormed
  narrows : (ty :: chain).Pairwise Narrows
  typedefs : ty.typedefs.length = chain.length

/-- Every type in the table is what a typedef makes of a type with a derivation. -/
def Sound (model : DeclaredModel) (t : TypeTable) : Prop :=
  ∀ key dt, t.lookup key = some dt → ∃ d s ty chain, d.key = key ∧ typeStatement d = .ok s
    ∧ dt = derive d ty ∧ Derivation model t d.source d.inner s ty chain

theorem Derivation.mono (htu : TypeTable.Extends t u)
    (h : Derivation model t source scope s ty chain) :
    Derivation model u source scope s ty chain :=
  { h with links := h.links.mono htu }

/-- A typedef changes nothing that is compared. -/
theorem narrows_derive (h : Narrows ty dt) : Narrows (derive d ty) dt := { h with }

theorem WellFormed.derive (h : ty.WellFormed) : (derive d ty).WellFormed := { h with }

/-- What restricts the type of a typedef is derived from it and from all behind it. -/
theorem Derivation.cons {d' : Definition} {s' : Declaration} {name : String}
    (hbase : Builtin.ofName? (s.label.argument.getD "") = none)
    (hd : Definition.resolve model source .typedef s.label scope = .ok d)
    (hdt : t.lookup d.key = some (derive d' dt)) (hkey : d'.key = d.key)
    (hs : typeStatement d' = .ok s') (h : Derivation model t d'.source d'.inner s' dt chain)
    (hrestricts : Restricts true { derive d' dt with name := name } ty) :
    Derivation model t source scope s ty (derive d' dt :: chain) := by
  obtain ⟨hdtformed, hchainformed⟩ := List.forall_mem_cons.1 h.wellFormed
  obtain ⟨hdtnarrows, hchainnarrows⟩ := List.pairwise_cons.1 h.narrows
  have hnarrows : Narrows ty (derive d' dt) := { hrestricts.narrows rfl with }
  have hdt' : (derive d' dt).WellFormed := hdtformed.derive
  have hformed : ty.WellFormed := hrestricts.wellFormed { hdt' with }
  refine ⟨.typedef hbase hd hdt hkey hs h.links, ?_, ?_, ?_⟩
  · exact List.forall_mem_cons.2
      ⟨hformed, List.forall_mem_cons.2 ⟨hdt', hchainformed⟩⟩
  · have hbehind : ∀ x ∈ chain, Narrows (derive d' dt) x := fun x hx =>
      narrows_derive (hdtnarrows x hx)
    rw [List.pairwise_cons, List.pairwise_cons]
    refine ⟨List.forall_mem_cons.2 ⟨hnarrows, fun x hx => ?_⟩, hbehind, hchainnarrows⟩
    exact hnarrows.trans (hbehind x hx)
  · rw [hrestricts.typedefs]
    exact congrArg (· + 1) h.typedefs

/-- Where every table that resolving a typedef leaves is sound and knows the typedef, the type of a
`type` statement has a derivation. -/
theorem exists_derivation (hdefined : ∀ d t dt u, Sound model t → defined d t = .ok (dt, u) →
      Sound model u ∧ u.lookup d.key = some dt)
    (hsound : Sound model t) (h : ofDeclaration model defined source scope s t = .ok (ty, u)) :
    ∃ chain, Derivation model u source scope s ty chain := by
  obtain ⟨_, derived, v, _, hnamed, _, hrestricts, hsame⟩ := ofDeclaration_eq_ok h
  rcases named_eq_ok hnamed with ⟨base, hbase, rfl, rfl, rfl⟩
    | ⟨hbase, d, dt, hd, hdt, rfl, rfl⟩
  · refine ⟨[], .builtin hbase, ?_, List.pairwise_singleton _ _, ?_⟩
    · exact List.forall_mem_singleton.2
        (hrestricts.wellFormed { wellFormed_ofBuiltin base with })
    · rw [hrestricts.typedefs]
      rfl
  · -- the chain of the typedef is that with which the table knows it
    obtain rfl := hsame rfl
    obtain ⟨hsound', hlookup⟩ := hdefined d t dt u hsound hdt
    obtain ⟨d', s', ty', chain, hkey, hs', rfl, hderivation⟩ := hsound' _ _ hlookup
    exact ⟨_, hderivation.cons hbase hd hlookup hkey hs' hrestricts⟩

/-- Resolving a typedef keeps the table sound. -/
theorem Sound.ofDefinition (hsound : Sound model t)
    (h : ofDefinition model depth pending d t = .ok (ty, u)) : Sound model u := by
  induction depth generalizing pending d t ty u with
  | zero =>
    rcases ofDefinition_eq_ok h with ⟨_, rfl⟩ | ⟨_, _, _, _, _, _, hdepth, _⟩
    · exact hsound
    · cases hdepth
  | succ depth ih =>
    rcases ofDefinition_eq_ok h with ⟨_, rfl⟩
      | ⟨hnone, _, _, s, base, v, hdepth, hs, hbase, rfl, rfl⟩
    · exact hsound
    · cases hdepth
      have hv : Sound model v :=
        ofDeclaration_keeps (fun _ _ _ _ ht h => ih ht h) s _ base v hsound hbase
      obtain ⟨chain, hderivation⟩ := exists_derivation
        (fun d t dt u ht h => ⟨ih ht h, (known_of_ofDefinition_ok h).2⟩) hsound hbase
      -- the typedef itself is pending meanwhile, so nothing that is known is replaced
      have hnew : v.lookup d.key = none := by
        refine ofDeclaration_keeps (P := fun t => t.lookup d.key = none) ?_ s _ base v hnone hbase
        intro d' t ty u hnone h
        exact lookup_of_pending (by simp) hnone h
      have hextends : TypeTable.Extends v ((d.key, derive d base) :: v) :=
        (TypeTable.Extends.refl v).cons hnew
      intro key dt hdt
      rw [List.lookup_cons] at hdt
      split at hdt
      · rename_i hkey
        cases hdt
        exact ⟨d, s, base, chain, (beq_iff_eq.1 hkey).symm, hs, rfl, hderivation.mono hextends⟩
      · obtain ⟨d', s', ty', chain', hkey', hs', hdt', hderivation'⟩ := hv key dt hdt
        exact ⟨d', s', ty', chain', hkey', hs', hdt', hderivation'.mono hextends⟩

/-- The tables that come up while the types of a module are resolved. -/
inductive Reachable (model : DeclaredModel) : TypeTable → Prop where
  | empty : Reachable model []
  | statement {depth : Nat} {pending : List Definition.Pending} {source : DeclaredSource}
    {scope : Scope} {s : Declaration} {t u : TypeTable} {ty : EffectiveType} :
    Reachable model t →
    ofDeclaration model (ofDefinition model depth pending) source scope s t = .ok (ty, u) →
    Reachable model u
  | typedef {depth : Nat} {pending : List Definition.Pending} {d : Definition}
    {t u : TypeTable} {ty : EffectiveType} :
    Reachable model t → ofDefinition model depth pending d t = .ok (ty, u) → Reachable model u

theorem Reachable.sound (h : Reachable model t) : Sound model t := by
  induction h with
  | empty =>
    intro key dt hdt
    cases hdt
  | statement _ h ih =>
    exact ofDeclaration_keeps (fun _ _ _ _ ht h => ht.ofDefinition h) _ _ _ _ ih h
  | typedef _ h ih => exact ih.ofDefinition h

/-- Deriving a type only narrows. The intervals of every resolved type ascend and are disjoint. A
type that names a built-in one allows what this allows at most; a type that names a typedef narrows
the type of the typedef, and so on along the whole chain down to a built-in type, whatever its
length. -/
theorem derived_types_narrow (reachable : Reachable model t)
    (h : ofDeclaration model (ofDefinition model depth pending) source scope s t = .ok (ty, u)) :
    Interval.Ascending ty.ranges ∧ Interval.Ascending ty.lengths
      ∧ (∀ base, Builtin.ofName? (s.label.argument.getD "") = some base → ty.base = base
          ∧ (∀ n, ty.rangeContains n = true → (ofBuiltin base).rangeContains n = true)
          ∧ ∀ n, ty.lengthAllows n = true → (ofBuiltin base).lengthAllows n = true)
      ∧ (Builtin.ofName? (s.label.argument.getD "") = none →
          ∃ d dt, Definition.resolve model source .typedef s.label scope = .ok d
            ∧ ofDefinition model depth pending d t = .ok (dt, u) ∧ u.lookup d.key = some dt
            ∧ Narrows ty dt ∧ ty.enums.Nodup ∧ ty.bits.Nodup ∧ ty.typedefs = dt.typedefs)
      ∧ ∃ chain, Derivation model u source scope s ty chain := by
  have hdefined : ∀ d t dt u, Sound model t → ofDefinition model depth pending d t = .ok (dt, u) →
      Sound model u ∧ u.lookup d.key = some dt :=
    fun d t dt u ht h => ⟨ht.ofDefinition h, (known_of_ofDefinition_ok h).2⟩
  obtain ⟨chain, hderivation⟩ := exists_derivation hdefined reachable.sound h
  have hformed : ty.WellFormed := hderivation.wellFormed ty List.mem_cons_self
  obtain ⟨_, derived, v, _, hnamed, _, hrestricts, hsame⟩ := ofDeclaration_eq_ok h
  refine ⟨hformed.ranges, hformed.lengths, ?_, ?_, chain, hderivation⟩
  · intro base hbase
    have hty : ty.base = base := by
      rcases named_eq_ok hnamed with ⟨base', hbase', rfl, _⟩ | ⟨hnone, _⟩
      · rw [hrestricts.base]
        exact Option.some.inj (hbase'.symm.trans hbase)
      · rw [hbase] at hnone
        cases hnone
    subst hty
    exact ⟨rfl, hformed.rangesWithin, hformed.lengthsWithin⟩
  · intro hnone
    rcases named_eq_ok hnamed with ⟨base, hbase, _⟩ | ⟨_, d, dt, hd, hdt, rfl, rfl⟩
    · rw [hnone] at hbase
      cases hbase
    · obtain rfl := hsame rfl
      exact ⟨d, dt, hd, hdt, (known_of_ofDefinition_ok hdt).2, { hrestricts.narrows rfl with },
        hformed.enums, hformed.bits, hrestricts.typedefs⟩

/-! ### Examples -/

/-- A module with a chain of two typedefs, and a leaf whose type narrows them further. -/
def chainedTypes : List Source :=
  [.bareModule "a" [
    .bare "typedef" "s" [.bare "type" "int8" [.bare "range" "1..10 | 20..max" []]],
    .bare "typedef" "t" [.bare "type" "s" [.bare "range" "min..5 | 20..30" []]],
    .bare "leaf" "x" [.bare "type" "t" [.bare "range" "2..3" []]]]]

/-- How it is linked. -/
def chainedLinkage : Linkage :=
  let a : SourceId := ⟨"a", none⟩
  { sources := [⟨⟨a, .module "a", .v1, "a", [], [], .synthetic "bare"⟩, a, [("a", a)]⟩]
    families := [(a, [a])]
    graph := ⟨[a], []⟩ }

/-- Its declared model. -/
def chainedModel : DeclaredModel := .ofLinkage chainedLinkage chainedTypes

/-- The type of the leaf allows nothing that the typedefs do not allow. -/
theorem derived_types_narrow_two : ∃ source s ty u chain,
    resolve chainedModel source (.top ⟨"a", none⟩) s [] = .ok (ty, u)
      ∧ ty.ranges = [⟨2, 3⟩] ∧ chain.length = 2
      ∧ Derivation chainedModel u source (.top ⟨"a", none⟩) s ty chain := by
  have h : (do
      let source ← chainedModel.sources.head?
      let leaf ← Definition.among? .leaf "x" source.root
      let s ← leaf.firstChild? .type
      let r ← (resolve chainedModel source (.top ⟨"a", none⟩) s []).toOption
      return (r.1.ranges, r.1.typedefs.length)) = some ([⟨2, 3⟩], 2) := by
    decide +kernel
  obtain ⟨source, _, h⟩ := Option.bind_eq_some_iff.1 h
  obtain ⟨leaf, _, h⟩ := Option.bind_eq_some_iff.1 h
  obtain ⟨s, _, h⟩ := Option.bind_eq_some_iff.1 h
  obtain ⟨⟨ty, u⟩, hresolve, h⟩ := Option.bind_eq_some_iff.1 h
  obtain ⟨hranges, htypedefs⟩ := Prod.mk.inj (Option.some.inj h)
  have hok := Result.eq_ok_of_toOption hresolve
  obtain ⟨_, _, _, _, chain, hderivation⟩ := derived_types_narrow .empty hok
  exact ⟨source, s, ty, u, chain, hok, hranges, hderivation.typedefs.symm.trans htypedefs,
    hderivation⟩

end EffectiveType

end YangSchema
