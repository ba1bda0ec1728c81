import YangSchema.Proofs.GroundedTypes
import YangSchema.Proofs.Prefixes
import YangSchema.Proofs.Sites
import YangSchema.Schema

/-!
# Errors that come too late

Some errors of building a schema report what linking and checking should have found: a prefix that
is not bound, a module that is not there, a `deviate` of no known sort, or a path to what has no
name in paths (`Error.IsLate`). No run on a declared model ends with one of them.

This module shows it of the first step, which instantiates the modules: a name is only ever looked
up from a statement of a source, and its prefix has passed the check there
(`Forest.ofModel_isTimely`). A name that cannot be resolved is one that is not declared where its
prefix says.
-/

namespace YangSchema

/-- The faults of a path that say that a step names no module. -/
inductive PathFault.IsLate : PathFault → Prop where
  | unknownPrefix (step : String) : IsLate (.unknownPrefix step)
  | unavailableModule : IsLate .unavailableModule

/-- The errors of building a schema that linking and checking should have found. -/
inductive Error.IsLate (model : DeclaredModel) : Error → Prop where
  /-- A name could not be looked up for want of a module that its prefix names. -/
  | unresolved {id : SourceId} {location : Location} {kind : ReferenceKind} {name p bare : String} :
    Text.splitOnce? ':' name = some (p, bare) →
    (∀ s ∈ model.sources, s.id = id → s.prefixTarget? p = none) →
    IsLate model (.unresolved id location kind name)
  | augment {id : SourceId} {location : Location} {path : String} {fault : PathFault} :
    fault.IsLate → IsLate model (.augment id location path (.path fault))
  | deviation {id : SourceId} {location : Location} {path : String} {fault : PathFault} :
    fault.IsLate → IsLate model (.deviation id location path (.path fault))
  | unknownDeviate {id : SourceId} {location : Location} {path argument : String} :
    IsLate model (.deviation id location path (.unknownDeviate argument))
  | notASchemaNode {id : SourceId} {location : Location} {path : String} :
    IsLate model (.deviation id location path .notASchemaNode)

/-- The errors that could not have been found earlier. -/
def Error.IsTimely (model : DeclaredModel) (e : Error) : Prop := ¬ e.IsLate model

variable {order : Bool} {sources : List Source} {model : DeclaredModel} {s : DeclaredSource}
  {scope : Scope} {d : Declaration} {g : Definition}

/-! ## Names -/

/-- Looking up the name of a `uses` or `type` statement, from any scope, does not fail for its
prefix. -/
theorem Definition.resolve_isTimely (declared : DeclaredModel.ofSources order sources = .ok model)
    (hs : s ∈ model.sources) (hd : d ∈ s.root.subtrees) {kind : Kind} (hkind : d.kind? = some kind)
    (hname : kind ∈ [Kind.uses, .type]) (wanted : Kind) (scope : Scope) :
    (resolve model s wanted d.label scope).FailsWith (Error.IsTimely model) := by
  intro e he
  unfold resolve at he
  dsimp only at he
  split at he
  · cases he
  · cases he
    rintro ⟨hcut, hunknown⟩
    obtain ⟨module, hmodule⟩ := Declaration.hasBoundPrefix_iff_splitOnce?.1
      (DeclaredModel.hasBoundPrefix declared hs hd hkind hname) _ _ hcut
    have hnone := hunknown s hs rfl
    unfold DeclaredSource.prefixTarget? at hnone
    rw [hmodule] at hnone
    cases hnone

/-! ## Types -/

theorem IsRestrictionError.isTimely {e : Error} (h : IsRestrictionError e) : e.IsTimely model := by
  cases h
  rintro ⟨⟩

namespace EffectiveType

open Building (FailsWith)

variable {defined : Definition → Building EffectiveType}

/-- Where typedefs of the model are resolved without late errors, so is a `type` statement. -/
theorem ofDeclaration_isTimely (declared : DeclaredModel.ofSources order sources = .ok model)
    (hdefined : ∀ g, g.Valid model .typedef → FailsWith (Error.IsTimely model) (defined g))
    (hs : s ∈ model.sources) (hd : d ∈ s.root.subtrees) (htype : d.is .type = true)
    (hscope : scope.Valid model) :
    FailsWith (Error.IsTimely model) (ofDeclaration model defined s scope d) := by
  have restriction {α : Type} {x : Result α} (hx : x.FailsWith IsRestrictionError) :
      FailsWith (Error.IsTimely model) (liftM x : Building α) :=
    .lift (hx.mono IsRestrictionError.isTimely)
  induction d using Tree.induct with
  | step d ih =>
    have hnamed : FailsWith (Error.IsTimely model) (named model defined s scope d.label) := by
      unfold named
      dsimp only
      split
      · exact .pure _
      · have hresolve := Definition.resolve_isTimely declared hs hd (beq_iff_eq.1 htype) (by decide)
          .typedef scope
        refine (FailsWith.lift hresolve).bind_of_ok fun g _ _ hok => ?_
        have hg := Definition.valid_of_resolve hscope (Building.lift_eq_ok.1 hok).1
        exact (hdefined g hg).bind fun _ => .pure _
    rw [ofDeclaration_eq]
    refine hnamed.bind fun named => ?_
    refine (restriction (TypeUse.restrictValues_failsWith _ _)).bind fun type => ?_
    refine (restriction (TypeUse.checkMembers_failsWith _ _)).bind fun _ => ?_
    refine (FailsWith.mapM fun c hc => ?_).bind fun members =>
      restriction (TypeUse.restrictReferences_failsWith _ _)
    obtain ⟨hc, hctype⟩ := List.mem_filter.1 hc
    exact ih c hc (Tree.child_mem_subtrees hd hc) hctype

/-- Resolving a typedef of the model ends with no late error. -/
theorem ofDefinition_isTimely (declared : DeclaredModel.ofSources order sources = .ok model)
    (depth : Nat) (pending : List Definition.Pending) (hg : g.Valid model .typedef) :
    FailsWith (Error.IsTimely model) (ofDefinition model depth pending g) := by
  induction depth using Nat.strongRecOn generalizing pending g with
  | ind depth ih =>
    intro t e h
    obtain ⟨_, ⟨_, heq⟩ | ⟨_, n, hn, herror⟩⟩ := ofDefinition_eq_error h
    · rw [heq]
      rintro ⟨⟩
    · rcases herror with herror | ⟨x, hx, herror⟩
      · unfold typeStatement at herror
        split at herror
        · cases herror
        · cases herror
          rintro ⟨⟩
      · have hmem := Tree.child_mem_subtrees hg.statement (mem_of_typeStatement hx)
        refine ofDeclaration_isTimely declared (fun g' hg' => ?_) hg.source hmem
          (Expansion.is_of_typeStatement hx) hg.inner t e herror
        exact ih n (hn ▸ Nat.lt_succ_self n) _ hg'

end EffectiveType

/-! ## Copying -/

theorem Expansion.IsAdjustmentError.isTimely {e : Error} (h : IsAdjustmentError e) :
    e.IsTimely model := by
  cases h with
  | grammar => rintro ⟨⟩
  | refineTarget => rintro ⟨⟩
  | augment _ _ _ found =>
    rintro (_ | _)
    exact found _ rfl

namespace Expansion

open Building (FailsWith)

variable {e : Expansion} {grouping : Site → Building (List Node)} {addedByUses isMember : Bool}

/-- Copying the declarations of a list ends with no late error if copying each of them does not. -/
theorem copyAll_isTimely {p : Binding → Bool} {ds : List Declaration} {P : Error → Prop}
    (h : ∀ d ∈ ds, FailsWith P (copy e grouping s addedByUses isMember scope d)) :
    FailsWith P (copyAll e grouping s addedByUses isMember scope p ds) := by
  rw [copyAll_eq]
  refine (FailsWith.mapM fun d hd => ?_).bind fun _ => .pure _
  exact h d (List.mem_filter.1 hd).1

/-- Where groupings of the model are expanded without late errors, statements of its sources are
copied without. -/
theorem copy_isTimely (declared : DeclaredModel.ofSources order sources = .ok e.model)
    (hgrouping : ∀ id location g, g.Valid e.model .grouping →
      FailsWith (Error.IsTimely e.model) (grouping ⟨id, location, g⟩))
    (hs : s ∈ e.model.sources) (hd : d ∈ s.root.subtrees) (hscope : scope.Valid e.model) :
    FailsWith (Error.IsTimely e.model) (copy e grouping s addedByUses isMember scope d) := by
  have adjustment {α : Type} {x : Result α} (hx : x.FailsWith IsAdjustmentError) :
      FailsWith (Error.IsTimely e.model) (liftM x : Building α) :=
    .lift (hx.mono IsAdjustmentError.isTimely)
  -- on what stands below: under a `uses`, copying goes on two levels down, in its `augment`s
  induction d using Tree.inductBelow generalizing addedByUses isMember scope with
  | step d ih =>
    have child {c : Declaration} (hc : c ∈ d.children) : c ∈ s.root.subtrees :=
      Tree.child_mem_subtrees hd hc
    by_cases huses : IsUses d
    · rw [copy_of_uses huses]
      have hresolve := Definition.resolve_isTimely declared hs hd
        (Declaration.kind?_eq_some_iff.2 huses) (by decide) .grouping scope
      refine (FailsWith.lift hresolve).bind_of_ok fun g _ _ hok => ?_
      have hg := Definition.valid_of_resolve hscope (Building.lift_eq_ok.1 hok).1
      refine (hgrouping _ _ g hg).bind fun nodes => ?_
      refine (adjustment (refineAll_failsWith _ _ _)).bind fun refined => ?_
      rw [augmentAll_eq]
      refine FailsWith.foldlM (fun a ha nodes => ?_) _
      have ha := (List.mem_filter.1 ha).1
      unfold augmentOne
      refine (adjustment (augmentTarget_failsWith _ _ _)).bind fun target => ?_
      refine (copyAll_isTimely fun c hc => ?_).bind fun added =>
        (adjustment (augment_failsWith _ _ _ _ _)).bind fun _ => .pure _
      exact ih a ha c (Tree.mem_subtrees_of_mem_child hc (Tree.mem_subtrees_self c))
        (Tree.child_mem_subtrees (child ha) hc) (hscope.enter hs (child ha))
    · rw [copy_of_not_uses huses]
      have htype : FailsWith (Error.IsTimely e.model) (e.typeOf s scope isMember d) := by
        unfold typeOf
        split
        · rename_i htype
          rw [Bool.and_eq_true] at htype
          refine FailsWith.bind ?_ fun _ => .pure _
          exact EffectiveType.ofDeclaration_isTimely declared
            (fun g hg => EffectiveType.ofDefinition_isTimely declared _ _ hg) hs hd htype.1 hscope
        · exact .pure _
      refine htype.bind fun type => (copyAll_isTimely fun c hc => ?_).bind fun _ => .pure _
      exact ih c hc c (Tree.mem_subtrees_self c) (child hc) (hscope.enter hs hd)

/-- Expanding a grouping of the model ends with no late error. -/
theorem ofGrouping_isTimely (declared : DeclaredModel.ofSources order sources = .ok e.model)
    (depth : Nat) (pending : List Definition.Pending) {site : Site}
    (hsite : site.definition.Valid e.model .grouping) :
    FailsWith (Error.IsTimely e.model) (e.ofGrouping depth pending site) := by
  have cycle : FailsWith (Error.IsTimely e.model)
      (throw (cycleError pending site) : Building (List Node)) := by
    rintro t _ ⟨⟩ ⟨⟩
  induction depth generalizing pending site with
  | zero => exact cycle
  | succ depth ih =>
    by_cases hpending : site.definition.isPending pending = true
    · rw [ofGrouping_of_pending hpending]
      exact cycle
    · rw [ofGrouping_succ hpending]
      refine copyAll_isTimely fun d hd => ?_
      refine copy_isTimely declared (fun id location g hg => ?_) hsite.source
        (Tree.child_mem_subtrees hsite.statement hd) hsite.inner
      refine ih _ hg ?_
      rintro t _ ⟨⟩ ⟨⟩

/-- Instantiating a module ends with no late error. -/
theorem nodes_isTimely (declared : DeclaredModel.ofSources order sources = .ok e.model) :
    FailsWith (Error.IsTimely e.model) e.nodes := by
  refine (FailsWith.mapM fun s hs => ?_).bind fun _ => .pure _
  have hs := DeclaredModel.mem_of_family hs
  refine copyAll_isTimely fun d hd => ?_
  exact copy_isTimely declared (fun id location g hg => ofGrouping_isTimely declared _ _ hg) hs
    (Tree.child_mem_subtrees (Tree.mem_subtrees_self _) hd) (Scope.valid_top _)

end Expansion

/-- Instantiating the modules of a declared model ends with no late error. -/
theorem Forest.ofModel_isTimely (declared : DeclaredModel.ofSources order sources = .ok model) :
    (Forest.ofModel model).FailsWith (Error.IsTimely model) := by
  refine Result.FailsWith.mapM (fun m => ?_) _
  refine Result.FailsWith.bind ?_ fun _ => .ok _
  exact Expansion.nodes_isTimely (e := ⟨model, m.id⟩) declared []

end YangSchema
