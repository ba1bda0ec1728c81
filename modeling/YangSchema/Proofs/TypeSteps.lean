import YangSchema.Proofs.TypeNarrowing

/-!
# The steps of resolving a `type` statement

Resolving a `type` statement hands over to the resolution of typedefs at the names that stand in it:
its own and those of its member types, at any depth (`InType`, `Names`). Resolving the member types
is resolving one after the other (`membersOf_eq`), so that a statement is resolved in five steps
(`ofDeclaration_eq`). From these it is told once

* which typedefs have been resolved where a statement has been (`named_of_ofDeclaration_ok`);
* that a cycle is reported by a typedef that is named (`exists_names_of_typeCycle`).
-/

namespace YangSchema

namespace EffectiveType

variable {model : DeclaredModel} {defined defined' : Definition → Building EffectiveType}
  {source : DeclaredSource} {scope : Scope} {d c x : Declaration} {ds : List Declaration}
  {g : Definition} {t u : TypeTable} {ty : EffectiveType}

/-! ## Names -/

/-- The `type` statement `x` is `d` or a member type in it, at any depth. -/
inductive InType : (d x : Declaration) → Prop where
  | here (d : Declaration) : InType d d
  | member {d c x : Declaration} : c ∈ d.childrenOfKind .type → InType c x → InType d x

/-- The name of a `type` statement is not that of a built-in type, and refers to a typedef. -/
def Names (model : DeclaredModel) (source : DeclaredSource) (scope : Scope) (d : Declaration)
    (g : Definition) : Prop :=
  Builtin.ofName? (d.label.argument.getD "") = none
    ∧ Definition.resolve model source .typedef d.label scope = .ok g

/-- One typedef refers to another: its `type` statement names it, or a member type in that, at any
depth, does. -/
def TypeRefers (model : DeclaredModel) (g h : Definition) : Prop :=
  ∃ x c, typeStatement g = .ok x ∧ InType x c ∧ Names model g.source g.inner c h

theorem Names.valid (h : Names model source scope d g) (hscope : scope.Valid model) :
    g.Valid model .typedef := Definition.valid_of_resolve hscope h.2

theorem TypeRefers.valid {h : Definition} (hg : g.Valid model .typedef)
    (href : TypeRefers model g h) : h.Valid model .typedef := by
  obtain ⟨x, c, _, _, hnames⟩ := href
  exact hnames.valid hg.inner

/-! ## Steps -/

/-- The member types of a list are resolved one after the other. -/
theorem membersOf_eq (ds : List Declaration) : membersOf model defined source scope ds
    = (ds.filter (Declaration.is · .type)).mapM (ofDeclaration model defined source scope) := by
  induction ds with
  | nil => rw [membersOf]; rfl
  | cons d ds ih =>
    rw [membersOf, ih]
    by_cases hd : Declaration.is d .type = true
    · rw [if_pos hd, List.filter_cons_of_pos (p := (Declaration.is · .type)) hd, List.mapM_cons]
    · rw [if_neg hd, List.filter_cons_of_neg (p := (Declaration.is · .type)) hd]

/-- A `type` statement restricts the type that it names by values, has member types added and is
then restricted by references. -/
theorem ofDeclaration_eq (d : Declaration) :
    ofDeclaration model defined source scope d = (do
      let named ← named model defined source scope d.label
      let use : TypeUse := ⟨source.id, d, named.2⟩
      let type ← (liftM (use.restrictValues named.1) : Building EffectiveType)
      (liftM (use.checkMembers type) : Building Unit)
      let members ← (d.childrenOfKind .type).mapM (ofDeclaration model defined source scope)
      liftM (use.restrictReferences (type.addMembers members))) := by
  obtain ⟨label, children⟩ := d
  rw [ofDeclaration, membersOf_eq]
  rfl

/-- Where a `type` statement is resolved, so have been all these steps. -/
theorem steps_of_ofDeclaration (h : ofDeclaration model defined source scope d t = .ok (ty, u)) :
    ∃ named v type members,
      EffectiveType.named model defined source scope d.label t = .ok (named, v)
        ∧ (TypeUse.mk source.id d named.2).restrictValues named.1 = .ok type
        ∧ (TypeUse.mk source.id d named.2).checkMembers type = .ok ()
        ∧ (d.childrenOfKind .type).mapM (ofDeclaration model defined source scope) v
          = .ok (members, u) := by
  rw [ofDeclaration_eq] at h
  obtain ⟨named, v, hnamed, h⟩ := Building.bind_eq_ok.1 h
  obtain ⟨type, _, hlift, h⟩ := Building.bind_eq_ok.1 h
  obtain ⟨hvalues, rfl⟩ := Building.lift_eq_ok.1 hlift
  obtain ⟨_, _, hlift, h⟩ := Building.bind_eq_ok.1 h
  obtain ⟨hcheck, rfl⟩ := Building.lift_eq_ok.1 hlift
  obtain ⟨members, w, hmembers, hlift⟩ := Building.bind_eq_ok.1 h
  obtain ⟨_, rfl⟩ := Building.lift_eq_ok.1 hlift
  exact ⟨named, v, type, members, hnamed, hvalues, hcheck, hmembers⟩

section Keeps

open Building (Keeps)

variable {Q : TypeTable → Prop}

/-- Looking up a name keeps of the table what is kept by the typedef to which it refers. -/
theorem named_keeps_of_names (hdefined : ∀ g, Names model source scope d g → Keeps Q (defined g)) :
    Keeps Q (named model defined source scope d.label) := by
  rintro t ⟨type, derived⟩ u ht h
  rcases named_eq_ok h with ⟨_, _, _, _, rfl⟩ | ⟨hbase, g, gt, hg, hgt, _⟩
  · exact ht
  · exact hdefined g ⟨hbase, hg⟩ t gt u ht hgt

/-- Resolving a `type` statement keeps of the table what is kept by the typedefs it names. -/
theorem keeps_of_names (d : Declaration)
    (hdefined : ∀ x g, InType d x → Names model source scope x g → Keeps Q (defined g)) :
    Keeps Q (ofDeclaration model defined source scope d) := by
  induction d using Tree.induct with
  | step d ih =>
    rw [ofDeclaration_eq]
    refine (named_keeps_of_names fun g hg => hdefined d g (.here d) hg).bind fun named => ?_
    refine (Keeps.lift _).bind fun type => (Keeps.lift _).bind fun _ => ?_
    refine (Keeps.mapM fun c hc => ?_).bind fun members => .lift _
    exact ih c (List.mem_filter.1 hc).1 fun x g hx hg => hdefined x g (.member hc hx) hg

end Keeps

/-! ## What has been resolved -/

section Known

variable {depth : Nat} {pending : List Definition.Pending}

open Building (Replays)

theorem ofDeclaration_replays_self (d : Declaration) :
    Replays (ofDeclaration model (ofDefinition model depth pending) source scope d)
      (ofDeclaration model (ofDefinition model depth pending) source scope d) :=
  ofDeclaration_replays (fun g => ofDefinition_replays _ _ _ _ g) d

/-- Where a `type` statement has been resolved, all typedefs that it names are known. -/
theorem known_of_names
    (h : ofDeclaration model (ofDefinition model depth pending) source scope d t = .ok (ty, u))
    (hx : InType d x) (hg : Names model source scope x g) : ∃ type, u.lookup g.key = some type := by
  induction hx generalizing t u ty with
  | here d =>
    obtain ⟨⟨type, derived⟩, v, restricted, members, hnamed, _, _, hmembers⟩ :=
      steps_of_ofDeclaration h
    rcases named_eq_ok hnamed with ⟨base, hbase, _⟩ | ⟨_, g', gt, hg', hgt, _⟩
    · rw [hg.1] at hbase
      cases hbase
    · cases hg'.symm.trans hg.2
      have hextends :=
        (Replays.mapM (fun c _ => ofDeclaration_replays_self c) v members u hmembers).1
      exact ⟨gt, hextends _ _ (known_of_ofDefinition_ok hgt).2⟩
  | member hc _ ih =>
    obtain ⟨_, v, restricted, members, _, _, _, hmembers⟩ := steps_of_ofDeclaration h
    obtain ⟨w, hcomes⟩ := Building.exists_comes hmembers hc
    obtain ⟨_, w', _, rest, hok, hrest⟩ := hcomes.of_ok hmembers
    obtain ⟨type, hknown⟩ := ih hok hg
    have hextends :=
      (Replays.mapM (fun c _ => ofDeclaration_replays_self c) w' rest u hrest).1
    exact ⟨type, hextends _ _ hknown⟩

end Known

/-! ## Who reports a cycle -/

/-- A typedef that cannot be resolved is not known; it is being resolved already, has no `type`
statement, or one that cannot be resolved. -/
theorem ofDefinition_eq_error {depth : Nat} {pending : List Definition.Pending} {e : Error}
    (h : ofDefinition model depth pending g t = .error e) :
    t.lookup g.key = none
      ∧ ((g.isPending pending = true ∨ depth = 0) ∧ e = cycleError pending g
        ∨ ¬ g.isPending pending = true ∧ ∃ n, depth = n + 1
          ∧ (typeStatement g = .error e ∨ ∃ x, typeStatement g = .ok x
            ∧ ofDeclaration model (ofDefinition model n (pending ++ [(g.key, g.qualifiedName)]))
                g.source g.inner x t = .error e)) := by
  cases hlookup : t.lookup g.key with
  | some type =>
    rw [ofDefinition_of_lookup hlookup] at h
    cases h
  | none =>
    refine ⟨rfl, ?_⟩
    by_cases hpending : g.isPending pending = true
    · rw [ofDefinition_of_pending hlookup hpending] at h
      cases h
      exact .inl ⟨.inl hpending, rfl⟩
    · cases depth with
      | zero =>
        rw [ofDefinition_zero hlookup] at h
        cases h
        exact .inl ⟨.inr rfl, rfl⟩
      | succ n =>
        refine .inr ⟨hpending, n, rfl, ?_⟩
        rw [ofDefinition_succ hlookup hpending] at h
        rcases Building.bind_eq_error.1 h with h | ⟨x, _, hlift, h⟩
        · exact .inl (Building.lift_eq_error.1 h)
        · obtain ⟨hx, rfl⟩ := Building.lift_eq_ok.1 hlift
          rcases Building.bind_eq_error.1 h with h | ⟨_, _, _, h⟩
          · exact .inr ⟨x, hx, h⟩
          · cases h

/-- A cycle of typedefs is reported by one that a `type` statement names. -/
theorem exists_names_of_typeCycle {id : SourceId} {location : Location} {names : List String}
    (h : ofDeclaration model defined source scope d t = .error (.typeCycle id location names)) :
    ∃ x g u, InType d x ∧ Names model source scope x g
      ∧ defined g u = .error (.typeCycle id location names) := by
  induction d using Tree.induct generalizing t with
  | step d ih =>
    have restriction {α : Type} {y : Result α} (hy : y.FailsWith IsRestrictionError)
        {v : TypeTable} : (liftM y : Building α) v ≠ .error (.typeCycle id location names) := by
      intro herror
      cases hy _ (Building.lift_eq_error.1 herror)
    rw [ofDeclaration_eq] at h
    rcases Building.bind_eq_error.1 h with h | ⟨named, v, _, h⟩
    · unfold named at h
      dsimp only at h
      cases hbase : Builtin.ofName? (d.label.argument.getD "") with
      | some base =>
        rw [hbase] at h
        cases h
      | none =>
        rw [hbase] at h
        rcases Building.bind_eq_error.1 h with h | ⟨g, v, hlift, h⟩
        · -- a name that refers to nothing is reported as such
          have herror := Building.lift_eq_error.1 h
          unfold Definition.resolve at herror
          dsimp only at herror
          split at herror <;> cases herror
        · obtain ⟨hg, rfl⟩ := Building.lift_eq_ok.1 hlift
          rcases Building.bind_eq_error.1 h with h | ⟨_, _, _, h⟩
          · exact ⟨d, g, t, .here d, ⟨hbase, hg⟩, h⟩
          · cases h
    rcases Building.bind_eq_error.1 h with h | ⟨type, w, _, h⟩
    · exact absurd h (restriction (TypeUse.restrictValues_failsWith _ _))
    rcases Building.bind_eq_error.1 h with h | ⟨_, w, _, h⟩
    · exact absurd h (restriction (TypeUse.checkMembers_failsWith _ _))
    rcases Building.bind_eq_error.1 h with h | ⟨_, w, _, h⟩
    · obtain ⟨c, w, hcomes, herror⟩ := Building.comes_of_error h
      obtain ⟨x, g, u, hx, hg, hu⟩ := ih c (List.mem_filter.1 hcomes.mem).1 herror
      exact ⟨x, g, u, .member hcomes.mem hx, hg, hu⟩
    · exact absurd h (restriction (TypeUse.restrictReferences_failsWith _ _))

end EffectiveType

end YangSchema
