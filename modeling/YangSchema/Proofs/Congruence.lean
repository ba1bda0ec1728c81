import YangSchema.Proofs.Copying
import YangSchema.Proofs.TypeResolution

/-!
# Relations of computations

To compare two ways of copying, it is enough to compare the steps that differ. A relation of
computations that holds of every step to itself and is kept by sequencing (`Building.Congruence`)
holds of two ways of copying a declaration if it holds of how they look up definitions, resolve
types and expand groupings (`Building.Congruence.copy`).
-/

namespace YangSchema

/-- What a `refine` states is copied into a module, whatever else is known. -/
theorem Expansion.refineAll_model (model model' : DeclaredModel) (module : SourceId) :
    refineAll ⟨model, module⟩ = refineAll ⟨model', module⟩ := by
  have hproperty : refineProperty ⟨model, module⟩ = refineProperty ⟨model', module⟩ := rfl
  unfold refineAll refine
  rw [hproperty]

namespace Building

/-- A relation of computations that sequencing keeps. -/
structure Congruence (R : (α : Type) → Building α → Building α → Prop) : Prop where
  pure {α : Type} (a : α) : R α (Pure.pure a) (Pure.pure a)
  lift {α : Type} (x : Result α) : R α (liftM x) (liftM x)
  bind {α β : Type} {x y : Building α} {f g : α → Building β} (hx : R α x y)
    (hf : ∀ a, R β (f a) (g a)) : R β (x >>= f) (y >>= g)

namespace Congruence

variable {R : (α : Type) → Building α → Building α → Prop} (hR : Congruence R) {α β : Type}

include hR

theorem mapM {f g : α → Building β} {as : List α} (h : ∀ a ∈ as, R β (f a) (g a)) :
    R (List β) (as.mapM f) (as.mapM g) := by
  induction as with
  | nil => exact hR.pure []
  | cons a as ih =>
    rw [List.mapM_cons, List.mapM_cons]
    refine hR.bind (h a List.mem_cons_self) fun b => ?_
    refine hR.bind (ih fun c hc => h c (List.mem_cons_of_mem a hc)) fun bs => ?_
    exact hR.pure (b :: bs)

theorem foldlM {f g : β → α → Building β} {as : List α} (h : ∀ a ∈ as, ∀ b, R β (f b a) (g b a))
    (b : β) : R β (as.foldlM f b) (as.foldlM g b) := by
  induction as generalizing b with
  | nil => exact hR.pure b
  | cons a as ih =>
    rw [List.foldlM_cons, List.foldlM_cons]
    refine hR.bind (h a List.mem_cons_self b) fun c => ?_
    exact ih (fun x hx => h x (List.mem_cons_of_mem a hx)) c

/-! ## Types -/

section

open EffectiveType

variable {model model' : DeclaredModel} {defined defined' : Definition → Building EffectiveType}
  {source : DeclaredSource} {scope : Scope}
  (hresolve : ∀ reference, R Definition
    (liftM (Definition.resolve model source .typedef reference scope))
    (liftM (Definition.resolve model' source .typedef reference scope)))
  (hdefined : ∀ d, R EffectiveType (defined d) (defined' d))

include hresolve hdefined

theorem named (reference : Declared) :
    R (EffectiveType × Bool) (named model defined source scope reference)
      (named model' defined' source scope reference) := by
  unfold EffectiveType.named
  dsimp only
  cases Builtin.ofName? (reference.argument.getD "") with
  | some base => exact hR.pure _
  | none => exact hR.bind (hresolve reference) fun d => hR.bind (hdefined d) fun type => hR.pure _

theorem ofDeclaration (d : Declaration) :
    R EffectiveType (ofDeclaration model defined source scope d)
      (ofDeclaration model' defined' source scope d) := by
  induction d using Tree.induct with
  | step d ih =>
    obtain ⟨label, children⟩ := d
    have members : ∀ ds : List Declaration, ds ⊆ children →
        R (List EffectiveType) (membersOf model defined source scope ds)
          (membersOf model' defined' source scope ds) := by
      intro ds
      induction ds with
      | nil =>
        intro _
        rw [membersOf, membersOf]
        exact hR.pure []
      | cons c ds ihds =>
        intro hsub
        have hrest := ihds fun x hx => hsub (List.mem_cons_of_mem c hx)
        rw [membersOf, membersOf]
        split
        · refine hR.bind (ih c (hsub List.mem_cons_self)) fun type => ?_
          exact hR.bind hrest fun types => hR.pure _
        · exact hrest
    rw [EffectiveType.ofDeclaration, EffectiveType.ofDeclaration]
    refine hR.bind (hR.named hresolve hdefined label) fun named => ?_
    refine hR.bind (hR.lift _) fun type => hR.bind (hR.lift _) fun _ => ?_
    exact hR.bind (members children (List.Subset.refl _)) fun types => hR.lift _

end

/-! ## Copying -/

section

open Expansion

variable {model model' : DeclaredModel} {module : SourceId}
  {grouping grouping' : Site → Building (List Node)} {s : DeclaredSource}
  {addedByUses isMember : Bool} {scope : Scope}

theorem copyAll {p : Binding → Bool} {ds : List Declaration}
    (h : ∀ d ∈ ds, R (List Node) (copy ⟨model, module⟩ grouping s addedByUses isMember scope d)
      (copy ⟨model', module⟩ grouping' s addedByUses isMember scope d)) :
    R (List Node) (copyAll ⟨model, module⟩ grouping s addedByUses isMember scope p ds)
      (copyAll ⟨model', module⟩ grouping' s addedByUses isMember scope p ds) := by
  rw [copyAll_eq, copyAll_eq]
  refine hR.bind (hR.mapM fun d hd => ?_) fun parts => hR.pure _
  exact h d (List.mem_filter.1 hd).1

theorem augmentOne {a : Declaration}
    (h : ∀ c ∈ a.children,
      R (List Node) (copy ⟨model, module⟩ grouping s true false (scope.enter s a) c)
        (copy ⟨model', module⟩ grouping' s true false (scope.enter s a) c)) (nodes : List Node) :
    R (List Node) (augmentOne ⟨model, module⟩ grouping s scope nodes a)
      (augmentOne ⟨model', module⟩ grouping' s scope nodes a) := by
  refine hR.bind (hR.lift _) fun target => hR.bind (hR.copyAll h) fun added => ?_
  exact hR.bind (hR.lift _) fun augmented => hR.pure _

/-- Copying a declaration is related if looking up groupings, resolving types and expanding
groupings are. -/
theorem copy
    (hresolve : ∀ reference scope, R Definition
      (liftM (Definition.resolve model s .grouping reference scope))
      (liftM (Definition.resolve model' s .grouping reference scope)))
    (htype : ∀ scope isMember d, R (Option EffectiveType)
      (typeOf ⟨model, module⟩ s scope isMember d) (typeOf ⟨model', module⟩ s scope isMember d))
    (hgrouping : ∀ site, R (List Node) (grouping site) (grouping' site)) (d : Declaration) :
    R (List Node) (copy ⟨model, module⟩ grouping s addedByUses isMember scope d)
      (copy ⟨model', module⟩ grouping' s addedByUses isMember scope d) := by
  -- on what stands below: under a `uses`, copying goes on two levels down, in its `augment`s
  induction d using Tree.inductBelow generalizing addedByUses isMember scope with
  | step d ih =>
    by_cases huses : IsUses d
    · rw [copy_of_uses huses, copy_of_uses huses]
      refine hR.bind (hresolve _ _) fun g => hR.bind (hgrouping _) fun nodes => ?_
      rw [refineAll_model model model']
      refine hR.bind (hR.lift _) fun refined => ?_
      rw [augmentAll_eq, augmentAll_eq]
      refine hR.foldlM (fun a ha => hR.augmentOne fun c hc => ?_) refined
      have ha' := (List.mem_filter.1 ha).1
      exact ih a ha' c (Tree.mem_subtrees_of_mem_child hc (Tree.mem_subtrees_self c))
    · rw [copy_of_not_uses huses, copy_of_not_uses huses]
      refine hR.bind (htype _ _ _) fun type => ?_
      refine hR.bind (hR.copyAll fun c hc => ?_) fun copied => hR.pure _
      exact ih c hc c (Tree.mem_subtrees_self c)

end

end Congruence

end Building

end YangSchema
