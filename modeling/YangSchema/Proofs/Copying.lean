import YangSchema.Proofs.Scopes
import YangSchema.Proofs.Outcome
import YangSchema.Schema.Forest

/-!
# Copying, step by step

Copying the declarations of a list is copying one after the other (`copyAll_eq`), and likewise for
the `augment` statements under a `uses` (`augmentAll_eq`). With these equations the steps of copying
a declaration are told apart once (`copy_of_uses`, `copy_of_not_uses`), and so is what must have
succeeded where copying succeeds (`steps_of_uses`, `steps_of_not_uses`, `steps_of_augmentOne`) and
where a `refine` does (`steps_of_refine`, `room_of_refineProperty`) and where a grouping is expanded
(`steps_of_ofGrouping`).
-/

namespace YangSchema

namespace Expansion

variable {e : Expansion} {grouping : Site → Building (List Node)} {s : DeclaredSource}
  {addedByUses isMember : Bool} {scope : Scope}

/-- Whether a statement is an `augment`. -/
def isAugment (d : Declaration) : Bool := d.label.binding = .builtin .augment

/-! ## Lists -/

/-- Copying the declarations of a list copies those that satisfy the condition in turn. -/
theorem copyAll_eq {p : Binding → Bool} (ds : List Declaration) :
    copyAll e grouping s addedByUses isMember scope p ds = (do
      let parts ← (ds.filter fun d => p d.label.binding).mapM
        (copy e grouping s addedByUses isMember scope)
      return parts.flatten) := by
  induction ds with
  | nil => rw [copyAll]; rfl
  | cons d ds ih =>
    rw [copyAll, ih]
    by_cases hp : p d.label.binding = true
    · rw [if_pos hp, List.filter_cons_of_pos (p := fun d : Declaration => p d.label.binding) hp,
        List.mapM_cons]
      simp
    · rw [if_neg hp, List.filter_cons_of_neg (p := fun d : Declaration => p d.label.binding) hp]

/-- Applies one `augment` statement to the nodes that a `uses` has brought. -/
def augmentOne (e : Expansion) (grouping : Site → Building (List Node)) (s : DeclaredSource)
    (scope : Scope) (nodes : List Node) (a : Declaration) : Building (List Node) := do
  let target ← augmentTarget s.id a.label nodes
  let added ← copyAll e grouping s true false (scope.enter s a) Node.isAugmentContent a.children
  let augmented ←
    augment s.id a.label (Node.conditionsOfDeclarations s.id a.children) target.2 added
  return Tree.forestReplace augmented nodes target.1

/-- Applying the `augment` statements of a list applies one after the other. -/
theorem augmentAll_eq (nodes : List Node) (ds : List Declaration) :
    augmentAll e grouping s scope nodes ds
      = (ds.filter isAugment).foldlM (augmentOne e grouping s scope) nodes := by
  induction ds generalizing nodes with
  | nil => rw [augmentAll]; rfl
  | cons d ds ih =>
    obtain ⟨label, children⟩ := d
    rw [augmentAll]
    by_cases h : label.binding = .builtin .augment
    · have hfilter : isAugment ⟨label, children⟩ = true := decide_eq_true h
      rw [if_pos h, List.filter_cons_of_pos hfilter, List.foldlM_cons]
      simp only [ih, augmentOne, bind_assoc, pure_bind]
    · have hfilter : ¬ isAugment ⟨label, children⟩ = true := by
        simpa [isAugment] using h
      rw [if_neg h, List.filter_cons_of_neg hfilter, ih]

/-! ## Declarations -/

theorem copy_of_uses {d : Declaration} (h : IsUses d) :
    copy e grouping s addedByUses isMember scope d = (do
      let definition ← Definition.resolve e.model s .grouping d.label scope
      let nodes ← grouping ⟨s.id, d.label.location, definition⟩
      let refined ← e.refineAll s.id
        (nodes.map (Node.addConditions (Node.conditionsOfDeclarations s.id d.children)))
        (d.children.filter (Declaration.is · .refine))
      augmentAll e grouping s scope refined d.children) := by
  obtain ⟨label, children⟩ := d
  rw [copy]
  exact if_pos h

theorem copy_of_not_uses {d : Declaration} (h : ¬ IsUses d) :
    copy e grouping s addedByUses isMember scope d = (do
      let type ← e.typeOf s scope isMember d
      let copied ← copyAll e grouping s addedByUses (d.label.binding = .builtin .type)
        (scope.enter s d) (fun _ => true) d.children
      return [⟨{ NodeLabel.ofDeclared e.module s.id addedByUses d.label with type := type },
        copied⟩]) := by
  obtain ⟨label, children⟩ := d
  rw [copy]
  exact if_neg h

/-! ## Copying that succeeds or fails -/

variable {p : Binding → Bool} {ds : List Declaration} {d c : Declaration} {nodes : List Node}
  {t u : TypeTable}

theorem copyAll_eq_ok : copyAll e grouping s addedByUses isMember scope p ds t = .ok (nodes, u)
    ↔ ∃ parts, (ds.filter fun d => p d.label.binding).mapM
        (copy e grouping s addedByUses isMember scope) t = .ok (parts, u)
      ∧ parts.flatten = nodes := by
  rw [copyAll_eq, Building.bind_eq_ok]
  constructor
  · rintro ⟨parts, v, hparts, hreturn⟩
    obtain ⟨hnodes, rfl⟩ := Prod.mk.inj (Except.ok.inj hreturn)
    exact ⟨parts, hparts, hnodes⟩
  · rintro ⟨parts, hparts, rfl⟩
    exact ⟨parts, u, hparts, rfl⟩

/-- Where the declarations of a list are copied, so is each of them. -/
theorem exists_copy_ok {r : List Node × TypeTable}
    (h : copyAll e grouping s addedByUses isMember scope p ds t = .ok r) (hc : c ∈ ds)
    (hp : p c.label.binding = true) :
    ∃ u r', copy e grouping s addedByUses isMember scope c u = .ok r' := by
  obtain ⟨parts, hparts, _⟩ := copyAll_eq_ok.1 h
  obtain ⟨u, hcomes⟩ := Building.exists_comes hparts (List.mem_filter.2 ⟨hc, hp⟩)
  obtain ⟨_, _, _, _, hcopied, _⟩ := hcomes.of_ok hparts
  exact ⟨u, _, hcopied⟩

/-- Where the declarations of a list cannot be copied, it comes to one that cannot. -/
theorem exists_comes_of_copyAll_error {error : Error}
    (h : copyAll e grouping s addedByUses isMember scope p ds t = .error error) :
    ∃ c u, Building.Comes (copy e grouping s addedByUses isMember scope)
        (ds.filter fun d => p d.label.binding) t c u
      ∧ copy e grouping s addedByUses isMember scope c u = .error error := by
  rw [copyAll_eq] at h
  rcases Building.bind_eq_error.1 h with h | ⟨_, _, _, h⟩
  · exact Building.comes_of_error h
  · cases h

/-- Where the declarations of a list cannot be copied, one of them cannot. -/
theorem exists_copy_error {error : Error}
    (h : copyAll e grouping s addedByUses isMember scope p ds t = .error error) :
    ∃ c ∈ ds, p c.label.binding = true
      ∧ ∃ u, copy e grouping s addedByUses isMember scope c u = .error error := by
  obtain ⟨c, u, hcomes, h⟩ := exists_comes_of_copyAll_error h
  obtain ⟨hc, hp⟩ := List.mem_filter.1 hcomes.mem
  exact ⟨c, hc, hp, u, h⟩

/-- What is no `uses` becomes one node, with its type and the copies of its substatements. -/
theorem steps_of_not_uses (hnot : ¬ IsUses d)
    (h : copy e grouping s addedByUses isMember scope d t = .ok (nodes, u)) :
    ∃ type v copied, e.typeOf s scope isMember d t = .ok (type, v)
      ∧ copyAll e grouping s addedByUses (d.label.binding = .builtin .type) (scope.enter s d)
        (fun _ => true) d.children v = .ok (copied, u)
      ∧ nodes = [⟨{ NodeLabel.ofDeclared e.module s.id addedByUses d.label with type := type },
        copied⟩] := by
  rw [copy_of_not_uses hnot] at h
  obtain ⟨type, v, htype, h⟩ := Building.bind_eq_ok.1 h
  obtain ⟨copied, w, hcopied, hreturn⟩ := Building.bind_eq_ok.1 h
  obtain ⟨hnodes, rfl⟩ := Prod.mk.inj (Except.ok.inj hreturn)
  exact ⟨type, v, copied, htype, hcopied, hnodes.symm⟩

/-- A `uses` is copied by expanding its grouping, refining the nodes and applying its `augment`
statements. -/
theorem steps_of_uses (huses : IsUses d)
    (h : copy e grouping s addedByUses isMember scope d t = .ok (nodes, u)) :
    ∃ definition brought v refined,
      Definition.resolve e.model s .grouping d.label scope = .ok definition
        ∧ grouping ⟨s.id, d.label.location, definition⟩ t = .ok (brought, v)
        ∧ e.refineAll s.id
            (brought.map (Node.addConditions (Node.conditionsOfDeclarations s.id d.children)))
            (d.children.filter (Declaration.is · .refine)) = .ok refined
        ∧ (d.children.filter isAugment).foldlM (augmentOne e grouping s scope) refined v
          = .ok (nodes, u) := by
  rw [copy_of_uses huses] at h
  obtain ⟨definition, _, hlift, h⟩ := Building.bind_eq_ok.1 h
  obtain ⟨hresolve, rfl⟩ := Building.lift_eq_ok.1 hlift
  obtain ⟨brought, v, hbrought, h⟩ := Building.bind_eq_ok.1 h
  obtain ⟨refined, _, hlift, h⟩ := Building.bind_eq_ok.1 h
  obtain ⟨hrefined, rfl⟩ := Building.lift_eq_ok.1 hlift
  rw [augmentAll_eq] at h
  exact ⟨definition, brought, v, refined, hresolve, hbrought, hrefined, h⟩

/-- An `augment` that succeeds finds its target, which grows by marked copies of its content. -/
theorem target_of_augmentOne {before : List Node}
    (h : augmentOne e grouping s scope before d t = .ok (nodes, u)) :
    ∃ address target added, augmentTarget s.id d.label before = .ok (address, target)
      ∧ copyAll e grouping s true false (scope.enter s d) Node.isAugmentContent d.children t
        = .ok (added, u)
      ∧ nodes = Tree.forestReplace (target.addChildren (added.map fun n =>
          (n.addConditions (Node.conditionsOfDeclarations s.id d.children)).markAugmenting))
          before address := by
  obtain ⟨⟨address, target⟩, _, hlift, h⟩ := Building.bind_eq_ok.1 h
  obtain ⟨htarget, rfl⟩ := Building.lift_eq_ok.1 hlift
  obtain ⟨added, _, hadded, h⟩ := Building.bind_eq_ok.1 h
  obtain ⟨augmented, _, hlift, hreturn⟩ := Building.bind_eq_ok.1 h
  obtain ⟨haugmented, rfl⟩ := Building.lift_eq_ok.1 hlift
  cases hreturn
  unfold augment at haugmented
  dsimp only at haugmented
  split at haugmented
  · cases haugmented
  · cases haugmented
    exact ⟨address, target, added, htarget, hadded, rfl⟩

/-- An `augment` is applied by finding its target and copying its content there. -/
theorem steps_of_augmentOne {before : List Node}
    (h : augmentOne e grouping s scope before d t = .ok (nodes, u)) :
    ∃ target added, augmentTarget s.id d.label before = .ok target
      ∧ copyAll e grouping s true false (scope.enter s d) Node.isAugmentContent d.children t
        = .ok (added, u) := by
  obtain ⟨address, target, added, htarget, hadded, _⟩ := target_of_augmentOne h
  exact ⟨(address, target), added, htarget, hadded⟩

/-- The target of an `augment` under a `uses` is one of the nodes, and can be augmented. -/
theorem augmentTarget_eq_ok {source : SourceId} {label : Declared} {address : List Nat}
    {target : Node} (h : augmentTarget source label nodes = .ok (address, target)) :
    Tree.forestSubtree? nodes address = some target
      ∧ (Node.kind? target).any (·.isAugmentable) = true := by
  unfold augmentTarget at h
  dsimp only at h
  split at h
  · rename_i address' x haddress hx
    rw [haddress] at hx
    split at h
    · rename_i haugmentable
      cases h
      exact ⟨hx, haugmentable⟩
    · cases h
  · cases h

/-- An `augment` that succeeds makes its target grow by marked copies of its content. -/
theorem grown_of_augmentOne {before : List Node}
    (h : augmentOne e grouping s scope before d t = .ok (nodes, u)) :
    ∃ address target added, Tree.forestSubtree? before address = some target
      ∧ (Node.kind? target).any (·.isAugmentable) = true
      ∧ copyAll e grouping s true false (scope.enter s d) Node.isAugmentContent d.children t
        = .ok (added, u)
      ∧ nodes = Tree.forestReplace (target.addChildren (added.map fun n =>
          (n.addConditions (Node.conditionsOfDeclarations s.id d.children)).markAugmenting))
          before address := by
  obtain ⟨address, target, added, htarget, hadded, hnodes⟩ := target_of_augmentOne h
  obtain ⟨hsub, haugmentable⟩ := augmentTarget_eq_ok htarget
  exact ⟨address, target, added, hsub, haugmentable, hadded, hnodes⟩

/-! ## Refining that succeeds -/

variable {source : SourceId} {property : Declaration} {n n' : Node} {nodes' : List Node}

/-- A property that is stated anew is the last child of the node, behind those that it leaves. -/
theorem room_of_refineProperty (h : e.refineProperty source n property = .ok n') :
    ∃ p, n' = (n.removeChildren p).addChild (Node.ofDeclaration e.module source true property) := by
  obtain ⟨room, hroom, hreturn⟩ := Result.bind_eq_ok.1 h
  cases hreturn
  have hkept : n = n.removeChildren fun _ => false := by
    obtain ⟨label, children⟩ := n
    simp [Tree.removeChildren]
  suffices ∃ p, room = n.removeChildren p by
    obtain ⟨p, rfl⟩ := this
    exact ⟨p, rfl⟩
  unfold makeRoom at hroom
  split at hroom
  · split at hroom
    · cases hroom
    · split at hroom
      · exact ⟨_, (Except.ok.inj hroom).symm⟩
      · exact ⟨_, (Except.ok.inj hroom).symm.trans hkept⟩
  · exact ⟨_, (Except.ok.inj hroom).symm.trans hkept⟩

/-- A `refine` that succeeds finds a node, which takes its properties one after the other. -/
theorem steps_of_refine (h : e.refine source nodes d = .ok nodes') :
    ∃ address target refined, Tree.forestSubtree? nodes address = some target
      ∧ d.children.foldlM (e.refineProperty source) target = .ok refined
      ∧ nodes' = Tree.forestReplace refined nodes address := by
  unfold refine at h
  dsimp only at h
  split at h
  · rename_i address target haddress htarget
    obtain ⟨refined, hrefined, hreturn⟩ := Result.bind_eq_ok.1 h
    rw [haddress] at htarget
    exact ⟨address, target, refined, htarget, hrefined, (Except.ok.inj hreturn).symm⟩
  · cases h

/-! ## Groupings -/

/-- The entry of a definition among those that are being expanded. -/
def entry (d : Definition) : Definition.Pending := (d.key, d.qualifiedName)

theorem ofGrouping_of_pending {depth : Nat} {pending : List Definition.Pending} {site : Site}
    (h : site.definition.isPending pending = true) :
    e.ofGrouping depth pending site = throw (cycleError pending site) := by
  cases depth with
  | zero => rfl
  | succ depth => exact if_pos h

theorem ofGrouping_succ {depth : Nat} {pending : List Definition.Pending} {site : Site}
    (h : ¬ site.definition.isPending pending = true) :
    e.ofGrouping (depth + 1) pending site =
      copyAll e (e.ofGrouping depth (pending ++ [entry site.definition])) site.definition.source
        true false site.definition.inner Node.isGroupingContent
        site.definition.statement.children :=
  if_neg h

/-- A grouping that is expanded is not being expanded already and can be entered, and its content
is copied. -/
theorem steps_of_ofGrouping {depth : Nat} {pending : List Definition.Pending} {site : Site}
    {r : List Node × TypeTable} (h : e.ofGrouping depth pending site t = .ok r) :
    ∃ below, depth = below + 1 ∧ ¬ site.definition.isPending pending = true
      ∧ copyAll e (e.ofGrouping below (pending ++ [entry site.definition])) site.definition.source
        true false site.definition.inner Node.isGroupingContent
        site.definition.statement.children t = .ok r := by
  have hnot : ¬ site.definition.isPending pending = true := by
    intro hpending
    rw [ofGrouping_of_pending hpending] at h
    cases h
  cases depth with
  | zero => cases h
  | succ depth =>
    rw [ofGrouping_succ hnot] at h
    exact ⟨depth, rfl, hnot, h⟩

end Expansion

end YangSchema
