import YangSchema.Proofs.Copying
import YangSchema.Proofs.Augmenting

/-!
# The augments of an instantiated module

Instantiating a module makes every node one of that module, and leaves no `uses`: the nodes that
a `uses` brings stand in its place, with the bindings with which their grouping was copied
(`Expansion.origin_of_copy`). So the content of an `augment` at the top of an instantiated module
is schema nodes of this module (`Augmentation.content_of_instantiated`).
-/

namespace YangSchema

namespace Expansion

variable {e : Expansion} {grouping : Site → Building (List Node)} {s : DeclaredSource}
  {source : SourceId} {addedByUses isMember : Bool} {scope : Scope} {d property : Declaration}
  {n n' : Node} {nodes nodes' : List Node} {t u : TypeTable}

/-! ## Refining and augmenting -/

/-- The module of a node and what its statement is. -/
def origin (n : Node) : SourceId × Binding := (n.label.module, n.label.binding)

theorem label_of_refineProperties {ds : List Declaration}
    (h : ds.foldlM (e.refineProperty source) n = .ok n') : n'.label = n.label := by
  refine Result.foldlM_invariant (P := fun x => x.label = n.label) ?_ rfl h
  intro x d y hx hy
  obtain ⟨p, rfl⟩ := room_of_refineProperty hy
  exact hx

/-- A `refine` changes what stands below nodes, but not what they are. -/
theorem map_origin_refine (h : e.refine source nodes d = .ok nodes') :
    nodes'.map origin = nodes.map origin := by
  obtain ⟨address, target, refined, htarget, hrefined, rfl⟩ := steps_of_refine h
  exact Tree.map_label_forestReplace (fun l => (l.module, l.binding)) htarget
    (by rw [label_of_refineProperties hrefined])

theorem map_origin_refineAll {ds : List Declaration}
    (h : e.refineAll source nodes ds = .ok nodes') : nodes'.map origin = nodes.map origin :=
  Result.foldlM_invariant (P := fun ns => ns.map origin = nodes.map origin)
    (fun _ _ _ hkept hstep => (map_origin_refine hstep).trans hkept) rfl h

/-- Adding conditions to nodes does not change what they are. -/
theorem map_origin_addConditions (conditions : List Condition) :
    (nodes.map (Node.addConditions conditions)).map origin = nodes.map origin := by
  rw [List.map_map]
  rfl

theorem map_origin_augmentOne (h : augmentOne e grouping s scope nodes d t = .ok (nodes', u)) :
    nodes'.map origin = nodes.map origin := by
  obtain ⟨address, target, added, hsub, _, _, rfl⟩ := grown_of_augmentOne h
  exact Tree.map_label_forestReplace (fun l => (l.module, l.binding)) (u := target.addChildren _)
    hsub rfl

theorem map_origin_augments {ds : List Declaration}
    (h : ds.foldlM (augmentOne e grouping s scope) nodes t = .ok (nodes', u)) :
    nodes'.map origin = nodes.map origin :=
  Building.foldlM_invariant (P := fun ns => ns.map origin = nodes.map origin)
    (fun _ _ _ _ _ _ hkept hstep => (map_origin_augmentOne hstep).trans hkept) rfl h

/-! ## Copying -/

/-- What a `uses` brings into a module: nodes of the module that are content of groupings. -/
def IsBrought (e : Expansion) (n : Node) : Prop :=
  n.label.module = e.module ∧ Node.isGroupingContent n.label.binding = true
    ∧ n.label.binding ≠ .builtin .uses

theorem IsBrought.congr (h : IsBrought e n) (horigin : origin n' = origin n) : IsBrought e n' := by
  obtain ⟨hmodule, hbinding⟩ := Prod.mk.inj horigin
  unfold IsBrought
  rw [hmodule, hbinding]
  exact h

/-- What a `uses` becomes is what its grouping brings; anything else becomes one node. -/
theorem origin_of_copy
    (hgrouping : ∀ site t r, grouping site t = .ok r → ∀ n ∈ r.1, IsBrought e n)
    (h : copy e grouping s addedByUses isMember scope d t = .ok (nodes, u)) (hn : n ∈ nodes) :
    IsUses d ∧ IsBrought e n
      ∨ ¬ IsUses d ∧ origin n = (e.module, d.label.binding) := by
  by_cases huses : IsUses d
  · obtain ⟨definition, brought, v, refined, _, hbrought, hrefined, haugments⟩ :=
      steps_of_uses huses h
    have hsame := map_origin_augments haugments
    rw [map_origin_refineAll hrefined, map_origin_addConditions] at hsame
    have hmem : origin n ∈ brought.map origin := hsame ▸ List.mem_map_of_mem hn
    obtain ⟨x, hx, hxn⟩ := List.mem_map.1 hmem
    exact .inl ⟨huses, (hgrouping _ _ _ hbrought x hx).congr hxn.symm⟩
  · obtain ⟨type, v, copied, _, _, rfl⟩ := steps_of_not_uses huses h
    rw [List.mem_singleton.1 hn]
    exact .inr ⟨huses, rfl⟩

/-- Every node of a copied list comes from a declaration of it. -/
theorem exists_copy_of_mem {p : Binding → Bool} {ds : List Declaration}
    (h : copyAll e grouping s addedByUses isMember scope p ds t = .ok (nodes, u))
    (hn : n ∈ nodes) : ∃ d ∈ ds, p d.label.binding = true ∧ ∃ v w part,
      copy e grouping s addedByUses isMember scope d v = .ok (part, w) ∧ n ∈ part := by
  obtain ⟨parts, hparts, rfl⟩ := copyAll_eq_ok.1 h
  obtain ⟨part, hpart, hn⟩ := List.mem_flatten.1 hn
  obtain ⟨d, hd, v, w, hcopy⟩ := Building.exists_of_mem_mapM hparts hpart
  obtain ⟨hd, hp⟩ := List.mem_filter.1 hd
  exact ⟨d, hd, hp, v, w, part, hcopy, hn⟩

/-- A grouping brings nodes of the module, and no `uses`. -/
theorem isBrought_of_ofGrouping {depth : Nat} {pending : List Definition.Pending} {site : Site}
    {r : List Node × TypeTable} (h : e.ofGrouping depth pending site t = .ok r) :
    ∀ n ∈ r.1, IsBrought e n := by
  induction depth generalizing pending site t r with
  | zero => cases h
  | succ depth ih =>
    intro n hn
    obtain ⟨_, ⟨⟩, _, h⟩ := steps_of_ofGrouping h
    obtain ⟨d, _, hp, v, w, part, hcopy, hn⟩ := exists_copy_of_mem h hn
    rcases origin_of_copy (fun _ _ _ => ih) hcopy hn with ⟨_, hbrought⟩ | ⟨hnot, horigin⟩
    · exact hbrought
    · obtain ⟨hmodule, hbinding⟩ := Prod.mk.inj horigin
      refine ⟨hmodule, ?_, ?_⟩
      · rw [hbinding]
        exact hp
      · rw [hbinding]
        exact hnot

/-- Every node at the top of an instantiated module comes from a declaration at the top of a source
of its family. -/
theorem exists_copy_of_mem_nodes (h : e.nodes t = .ok (nodes, u)) (hn : n ∈ nodes) :
    ∃ s ∈ e.model.family e.module, ∃ d ∈ s.root.children, ∃ v w part,
      copy e (e.ofGrouping (e.model.countOfKind .grouping) []) s false false (.top e.module) d v
        = .ok (part, w) ∧ n ∈ part := by
  obtain ⟨parts, v, hparts, hreturn⟩ := Building.bind_eq_ok.1 h
  cases hreturn
  obtain ⟨part, hpart, hn⟩ := List.mem_flatten.1 hn
  obtain ⟨s, hs, v, w, hsource⟩ := Building.exists_of_mem_mapM hparts hpart
  obtain ⟨d, hd, _, v, w, part, hcopy, hn⟩ := exists_copy_of_mem hsource hn
  exact ⟨s, hs, d, hd, v, w, part, hcopy, hn⟩

/-- What stands in an `augment` at the top of an instantiated module is nodes of the module, and no
`uses`. -/
theorem origin_of_augment {a : Node} (h : e.nodes t = .ok (nodes, u)) (ha : a ∈ nodes)
    (haugment : a.label.binding = .builtin .augment) :
    ∀ c ∈ a.children, c.label.module = e.module ∧ c.label.binding ≠ .builtin .uses := by
  obtain ⟨s, _, d, _, v, w, part, hcopy, ha⟩ := exists_copy_of_mem_nodes h ha
  have hgrouping : ∀ site t r, e.ofGrouping (e.model.countOfKind .grouping) [] site t = .ok r →
      ∀ n ∈ r.1, IsBrought e n := fun _ _ _ => isBrought_of_ofGrouping
  intro c hc
  rcases origin_of_copy hgrouping hcopy ha with ⟨_, _, hcontent, _⟩ | ⟨hnot, _⟩
  · -- an `augment` is not content of a grouping
    rw [haugment] at hcontent
    cases hcontent
  · obtain ⟨type, x, copied, _, hcopied, rfl⟩ := steps_of_not_uses hnot hcopy
    rw [List.mem_singleton.1 ha] at hc
    obtain ⟨d', _, _, v', w', part', hcopy', hc⟩ := exists_copy_of_mem hcopied hc
    rcases origin_of_copy hgrouping hcopy' hc with ⟨_, hmodule, _, hne⟩ | ⟨hnot', horigin⟩
    · exact ⟨hmodule, hne⟩
    · obtain ⟨hmodule, hbinding⟩ := Prod.mk.inj horigin
      refine ⟨hmodule, ?_⟩
      rw [hbinding]
      exact hnot'

end Expansion

/-- The statements at the top of an instantiated module are among the nodes of the module. -/
theorem Forest.exists_nodes_of_statements {model : DeclaredModel} {f : Forest} {t : ModuleTree}
    {n : Node} {kind : Kind} (instantiated : Forest.ofModel model = .ok f) (ht : t ∈ f)
    (hn : n ∈ t.statements kind) :
    ∃ nodes u, Expansion.nodes ⟨model, t.id⟩ [] = .ok (nodes, u) ∧ n ∈ nodes
      ∧ n.label.binding = .builtin kind := by
  obtain ⟨m, _, hm⟩ := Result.exists_of_mem_mapM instantiated ht
  obtain ⟨⟨nodes, u⟩, hnodes, hreturn⟩ := Result.bind_eq_ok.1 hm
  cases hreturn
  obtain ⟨hn, hkind⟩ := List.mem_filter.1 hn
  exact ⟨nodes, u, hnodes, hn, Binding.kind?_eq_some_iff.1 (beq_iff_eq.1 hkind)⟩

namespace Augmentation

/-- Content of an `augment` that is no `uses` has a name in schema paths. -/
theorem isSchemaNode_of_isAugmentContent {n : Node}
    (h : Node.isAugmentContent n.label.binding = true)
    (hne : n.label.binding ≠ .builtin .uses) : Node.isSchemaNode n = true := by
  unfold Node.isSchemaNode NodeLabel.isSchemaNode NodeLabel.kind?
  unfold Node.isAugmentContent Node.isGroupingContent at h
  generalize n.label.binding = b at h hne
  cases b with
  | builtin kind =>
    cases kind with
    | uses => exact absurd rfl hne
    | _ => first | rfl | cases h
  | extension module name => cases h
  | uninterpreted => cases h

/-- The content of an `augment` of an instantiated module is schema nodes of this module. -/
theorem content_of_instantiated {model : DeclaredModel} {f : Forest} {t : ModuleTree} {a c : Node}
    (instantiated : Forest.ofModel model = .ok f) (ht : t ∈ f) (ha : a ∈ t.statements .augment)
    (hc : c ∈ content a) : c.label.module = t.id ∧ Node.isSchemaNode c = true := by
  obtain ⟨nodes, u, hnodes, ha, hbinding⟩ := Forest.exists_nodes_of_statements instantiated ht ha
  obtain ⟨hc, hcontent⟩ := List.mem_filter.1 hc
  obtain ⟨hmodule, hne⟩ := Expansion.origin_of_augment hnodes ha hbinding c hc
  exact ⟨hmodule, isSchemaNode_of_isAugmentContent hcontent hne⟩

end Augmentation

end YangSchema
