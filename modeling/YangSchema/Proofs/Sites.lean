import YangSchema.Proofs.Copying
import YangSchema.Proofs.TypeResolution

/-!
# Where copying meets groupings

Copying a declaration hands over to the expansion of groupings at the `uses` statements that stand
in it, and only there:

* copying depends on the expansion of definitions of the model only (`copy_congr`);
* a cycle of groupings is reported by none of the other steps, so that it comes from a `uses` that
  stands in the declaration (`exists_uses_of_copy_error`);
* where copying succeeds, every `uses` that stands in the declaration has been expanded
  (`expanded_of_copy_ok`).
-/

namespace YangSchema

namespace Expansion

variable {e : Expansion} {grouping grouping' : Site → Building (List Node)} {s : DeclaredSource}
  {addedByUses isMember : Bool} {scope : Scope}

/-! ## Only definitions of the model are expanded -/

/-- Copying the declarations of a list is the same in two ways if copying each of them is. -/
theorem copyAll_congr {p : Binding → Bool} {ds : List Declaration}
    (h : ∀ d ∈ ds, copy e grouping s addedByUses isMember scope d
      = copy e grouping' s addedByUses isMember scope d) :
    copyAll e grouping s addedByUses isMember scope p ds
      = copyAll e grouping' s addedByUses isMember scope p ds := by
  rw [copyAll_eq, copyAll_eq, Building.mapM_congr]
  intro d hd
  exact h d (List.mem_filter.1 hd).1

/-- Copying is the same with two ways to expand groupings that agree on the definitions of the
model. -/
theorem copy_congr
    (hgrouping : ∀ id location d, d.Valid e.model .grouping →
      grouping ⟨id, location, d⟩ = grouping' ⟨id, location, d⟩)
    (hs : s ∈ e.model.sources) {d : Declaration} (hd : d ∈ s.root.subtrees)
    (hscope : scope.Valid e.model) :
    copy e grouping s addedByUses isMember scope d
      = copy e grouping' s addedByUses isMember scope d := by
  -- on what stands below: under a `uses`, copying goes on two levels down, in its `augment`s
  induction d using Tree.inductBelow generalizing addedByUses isMember scope with
  | step d ih =>
    have child {c : Declaration} (hc : c ∈ d.children) : c ∈ s.root.subtrees :=
      Tree.child_mem_subtrees hd hc
    by_cases huses : IsUses d
    · rw [copy_of_uses huses, copy_of_uses huses]
      have haugments (nodes : List Node) : augmentAll e grouping s scope nodes d.children
          = augmentAll e grouping' s scope nodes d.children := by
        rw [augmentAll_eq, augmentAll_eq]
        refine Building.foldlM_congr (fun a ha nodes => ?_) nodes
        have ha' := (List.mem_filter.1 ha).1
        unfold augmentOne
        rw [copyAll_congr]
        intro c hc
        exact ih a ha' c (Tree.mem_subtrees_of_mem_child hc (Tree.mem_subtrees_self c))
          (Tree.child_mem_subtrees (child ha') hc) (hscope.enter hs (child ha'))
      simp only [haugments]
      cases hresolve : Definition.resolve e.model s .grouping d.label scope with
      | error err => rfl
      | ok definition =>
        have hvalid := Definition.valid_of_resolve hscope hresolve
        have hpure : (liftM (Except.ok definition : Result Definition) : Building Definition)
          = pure definition := rfl
        rw [hpure, pure_bind, pure_bind, hgrouping _ _ _ hvalid]
    · rw [copy_of_not_uses huses, copy_of_not_uses huses, copyAll_congr]
      intro c hc
      exact ih c hc c (Tree.mem_subtrees_self c) (child hc) (hscope.enter hs hd)

/-! ## Cycles come from a `uses` -/

/-- An error that reports no cycle of groupings. -/
def IsOther (error : Error) : Prop :=
  ∀ source location names, error ≠ .groupingCycle source location names

theorem IsOther.of_isTypeError {error : Error} (h : IsTypeError error) : IsOther error := by
  rintro source location names rfl
  cases h

/-- The errors of adjusting what a `uses` has brought. -/
inductive IsAdjustmentError : Error → Prop where
  | grammar (source : SourceId) (keyword : String) (location : Location) (fault : GrammarFault) :
    IsAdjustmentError (.grammar source keyword location fault)
  | refineTarget (source : SourceId) (location : Location) (target : String) :
    IsAdjustmentError (.refineTarget source location target)
  | augment (source : SourceId) (location : Location) (target : String) {fault : AugmentFault}
    (found : ∀ f, fault ≠ .path f) : IsAdjustmentError (.augment source location target fault)

theorem IsAdjustmentError.isOther {error : Error} (h : IsAdjustmentError error) :
    IsOther error := by
  rintro source location names rfl
  cases h

theorem makeRoom_failsWith (source : SourceId) (property : Declaration) (target : Node) :
    (makeRoom source property target).FailsWith IsAdjustmentError := by
  unfold makeRoom
  split
  · split
    · exact .error (.grammar _ _ _ _)
    · split
      · exact .ok _
      · exact .ok _
  · exact .ok _

theorem refineAll_failsWith (source : SourceId) (nodes : List Node) (ds : List Declaration) :
    (e.refineAll source nodes ds).FailsWith IsAdjustmentError := by
  refine Result.FailsWith.foldlM (fun nodes d => ?_) ds nodes
  unfold refine
  dsimp only
  split
  · refine Result.FailsWith.bind ?_ fun _ => .ok _
    refine Result.FailsWith.foldlM (fun target property => ?_) _ _
    exact (makeRoom_failsWith source property target).bind fun _ => .ok _
  · exact .error (.refineTarget _ _ _)

theorem augmentTarget_failsWith (source : SourceId) (d : Declared) (nodes : List Node) :
    (augmentTarget source d nodes).FailsWith IsAdjustmentError := by
  unfold augmentTarget
  dsimp only
  split
  · split
    · exact .ok _
    · exact .error (.augment _ _ _ nofun)
  · exact .error (.augment _ _ _ nofun)

theorem augment_failsWith (source : SourceId) (d : Declared) (conditions : List Condition)
    (target : Node) (added : List Node) :
    (augment source d conditions target added).FailsWith IsAdjustmentError := by
  unfold augment
  dsimp only
  split
  · exact .error (.augment _ _ _ nofun)
  · exact .ok _

theorem typeOf_failsWith (d : Declaration) :
    (e.typeOf s scope isMember d).FailsWith IsTypeError := by
  unfold typeOf
  split
  · exact (EffectiveType.resolve_failsWith d).bind fun _ => .pure _
  · exact .pure _

section Cycle

variable {d : Declaration} {t : TypeTable} {source : SourceId} {location : Location}
  {names : List String}

/-- A reported cycle comes from the substatements of what is no `uses`. -/
theorem exists_child_of_copy_error (hnot : ¬ IsUses d)
    (h : copy e grouping s addedByUses isMember scope d t
      = .error (.groupingCycle source location names)) :
    ∃ c ∈ d.children, ∃ a m u, copy e grouping s a m (scope.enter s d) c u
      = .error (.groupingCycle source location names) := by
  rw [copy_of_not_uses hnot] at h
  rcases Building.bind_eq_error.1 h with h | ⟨type, t₁, _, h⟩
  · exact absurd rfl (IsOther.of_isTypeError (typeOf_failsWith d t _ h) _ _ _)
  rcases Building.bind_eq_error.1 h with h | ⟨copied, t₂, _, h⟩
  · obtain ⟨c, hc, _, u, h⟩ := exists_copy_error h
    exact ⟨c, hc, _, _, u, h⟩
  · cases h

/-- A reported cycle comes from the content of an `augment`. -/
theorem exists_content_of_augmentOne_error {nodes : List Node}
    (h : augmentOne e grouping s scope nodes d t
      = .error (.groupingCycle source location names)) :
    ∃ c ∈ d.children, ∃ u, copy e grouping s true false (scope.enter s d) c u
      = .error (.groupingCycle source location names) := by
  rcases Building.bind_eq_error.1 h with h | ⟨target, t₁, _, h⟩
  · have hfault := augmentTarget_failsWith _ _ _ _ (Building.lift_eq_error.1 h)
    exact absurd rfl (hfault.isOther _ _ _)
  rcases Building.bind_eq_error.1 h with h | ⟨added, t₂, _, h⟩
  · obtain ⟨c, hc, _, u, h⟩ := exists_copy_error h
    exact ⟨c, hc, u, h⟩
  rcases Building.bind_eq_error.1 h with h | ⟨_, _, _, h⟩
  · have hfault := augment_failsWith _ _ _ _ _ _ (Building.lift_eq_error.1 h)
    exact absurd rfl (hfault.isOther _ _ _)
  · cases h

/-- A reported cycle comes from the grouping of a `uses` or from an `augment` under it. -/
theorem grouping_or_augment_of_copy_error (huses : IsUses d)
    (h : copy e grouping s addedByUses isMember scope d t
      = .error (.groupingCycle source location names)) :
    (∃ definition, Definition.resolve e.model s .grouping d.label scope = .ok definition
        ∧ grouping ⟨s.id, d.label.location, definition⟩ t
          = .error (.groupingCycle source location names))
      ∨ ∃ a ∈ d.children, isAugment a = true ∧ ∃ nodes u,
          augmentOne e grouping s scope nodes a u
            = .error (.groupingCycle source location names) := by
  rw [copy_of_uses huses] at h
  rcases Building.bind_eq_error.1 h with h | ⟨definition, t₁, hlift, h⟩
  · have hother := Definition.resolve_failsWith _ _ _ _ _ _ (Building.lift_eq_error.1 h)
    exact absurd rfl (IsOther.of_isTypeError hother _ _ _)
  obtain ⟨hresolve, rfl⟩ := Building.lift_eq_ok.1 hlift
  rcases Building.bind_eq_error.1 h with h | ⟨nodes, t₂, _, h⟩
  · exact .inl ⟨definition, hresolve, h⟩
  rcases Building.bind_eq_error.1 h with h | ⟨refined, t₃, _, h⟩
  · have hfault := refineAll_failsWith _ _ _ _ (Building.lift_eq_error.1 h)
    exact absurd rfl (hfault.isOther _ _ _)
  rw [augmentAll_eq] at h
  obtain ⟨a, nodes, u, hcomes, h⟩ := Building.comesFrom_of_error h
  obtain ⟨ha, haugment⟩ := List.mem_filter.1 hcomes.mem
  exact .inr ⟨a, ha, haugment, nodes, u, h⟩

/-- A reported cycle comes from the expansion of a grouping that a `uses` in the declaration refers
to. -/
theorem exists_uses_of_copy_error
    (h : copy e grouping s addedByUses isMember scope d t
      = .error (.groupingCycle source location names)) :
    ∃ inner u definition t', Within s scope d inner u ∧ IsUses u
      ∧ Definition.resolve e.model s .grouping u.label inner = .ok definition
      ∧ grouping ⟨s.id, u.label.location, definition⟩ t'
        = .error (.groupingCycle source location names) := by
  induction d using Tree.inductBelow generalizing addedByUses isMember scope t with
  | step d ih =>
    by_cases huses : IsUses d
    · rcases grouping_or_augment_of_copy_error huses h with
        ⟨definition, hresolve, h⟩ | ⟨a, ha, haugment, nodes, t₁, h⟩
      · exact ⟨scope, d, definition, t, .here _ _, huses, hresolve, h⟩
      · have hnot : ¬ IsUses a := not_isUses_of_binding (of_decide_eq_true haugment) (by decide)
        obtain ⟨c, hc, t₂, h⟩ := exists_content_of_augmentOne_error h
        obtain ⟨inner, u, definition, t', hwithin, hu⟩ :=
          ih a ha c (Tree.mem_subtrees_of_mem_child hc (Tree.mem_subtrees_self c)) h
        -- the scope has the `augment` but not the `uses`, as `Within` says
        refine ⟨inner, u, definition, t', .under ha ?_, hu⟩
        rw [Scope.inside_of_uses huses]
        refine .under hc ?_
        rwa [Scope.inside_of_not_uses hnot]
    · obtain ⟨c, hc, _, _, t₁, h⟩ := exists_child_of_copy_error huses h
      obtain ⟨inner, u, definition, t', hwithin, hu⟩ := ih c hc c (Tree.mem_subtrees_self c) h
      refine ⟨inner, u, definition, t', .under hc ?_, hu⟩
      rwa [Scope.inside_of_not_uses huses]

end Cycle

/-! ## Every `uses` is expanded -/

theorem holdsUses_of_within {d u : Declaration} {inner : Scope} (hd : d.Grammatical)
    (h : Within s scope d inner u) (hu : u.holdsUses = true) : d.holdsUses = true := by
  by_contra hnot
  rw [hd.not_holdsUses_below (Bool.eq_false_iff.2 hnot) h.mem_subtrees] at hu
  cases hu

/-- Where copying succeeds, every `uses` that stands in the declaration refers to a grouping that
has been expanded. -/
theorem expanded_of_copy_ok {d : Declaration} (hd : d.Grammatical) {t : TypeTable}
    {r : List Node × TypeTable} (h : copy e grouping s addedByUses isMember scope d t = .ok r)
    {inner : Scope} {u : Declaration} (hwithin : Within s scope d inner u) (hu : IsUses u) :
    ∃ definition t' r', Definition.resolve e.model s .grouping u.label inner = .ok definition
      ∧ grouping ⟨s.id, u.label.location, definition⟩ t' = .ok r' := by
  have hholds : u.holdsUses = true := Declaration.holdsUses_of_binding hu rfl
  induction d using Tree.inductBelow generalizing addedByUses isMember scope t r with
  | step d ih =>
    by_cases huses : IsUses d
    · obtain ⟨definition, brought, t₁, refined, hresolve, hexpand, _, haugments⟩ :=
        steps_of_uses huses h
      cases hwithin with
      | here => exact ⟨definition, t, _, hresolve, hexpand⟩
      | @under _ _ _ a _ ha hwithin =>
        -- what stands under a `uses` and leads to another one is the content of an `augment`
        rw [Scope.inside_of_uses huses] at hwithin
        have haugment := hd.augment_of_uses huses ha
          (holdsUses_of_within (hd.child ha) hwithin hholds)
        have hnot : ¬ IsUses a := not_isUses_of_binding haugment (by decide)
        cases hwithin with
        | here => exact absurd hu hnot
        | @under _ _ _ c _ hc hwithin =>
          rw [Scope.inside_of_not_uses hnot] at hwithin
          have hcontent := (hd.child ha).content_of_augment haugment hc
            (holdsUses_of_within ((hd.child ha).child hc) hwithin hholds)
          obtain ⟨before, t₂, hcomes⟩ := Building.exists_comesFrom haugments
            (List.mem_filter.2 ⟨ha, decide_eq_true haugment⟩)
          obtain ⟨_, _, _, happlied, _⟩ := hcomes.of_ok haugments
          obtain ⟨target, added, _, hadded⟩ := steps_of_augmentOne happlied
          obtain ⟨t₃, _, hcopied⟩ := exists_copy_ok hadded hc hcontent
          exact ih a ha c (Tree.mem_subtrees_of_mem_child hc (Tree.mem_subtrees_self c))
            ((hd.child ha).child hc) hcopied hwithin
    · obtain ⟨type, t₁, copied, _, hcopied, _⟩ := steps_of_not_uses huses h
      cases hwithin with
      | here => exact absurd hu huses
      | @under _ _ _ c _ hc hwithin =>
        rw [Scope.inside_of_not_uses huses] at hwithin
        obtain ⟨t₂, _, hcopied⟩ := exists_copy_ok hcopied hc rfl
        exact ih c hc c (Tree.mem_subtrees_self c) (hd.child hc) hcopied hwithin

end Expansion

end YangSchema
