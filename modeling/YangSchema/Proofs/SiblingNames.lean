import YangSchema.Proofs.AugmentGrammar
import YangSchema.Schema.Deviation

/-!
# Names of siblings

Paths lead to nodes by the names of schema nodes, so no two siblings among these should have the
same name (`Node.ClashFree`). An augment keeps this, as it adds nothing whose name is taken by the
target or by another node that it adds. A deviation keeps it, as it adds nothing but properties,
which are no schema nodes: this follows from the grammar, since a `deviation` is copied as it is
declared (`Expansion.map_binding_of_copy`). So the trees of a schema are free of clashes if the
instantiated modules are (`Deviation.sibling_names_stay_unique`).
-/

namespace YangSchema

open Augmentation (nameOf)

/-! ## Clashes -/

namespace Node

variable {n : Node} {k : Name} {ks : List Name} {cs ns : List Node} {g : Node → Node} {kind : Kind}

/-- No node has two schema nodes with the same name among its children. -/
def ClashFree (n : Node) : Prop := ∀ x ∈ n.subtrees, (childNames x).Nodup

instance (n : Node) : Decidable (ClashFree n) :=
  inferInstanceAs (Decidable (∀ x ∈ n.subtrees, (childNames x).Nodup))

/-- The condition on siblings that this is. -/
def DistinctNames (_ : NodeLabel) (ls : List NodeLabel) : Prop :=
  ((ls.filter NodeLabel.isSchemaNode).map fun l => (l.module, l.schemaName)).Nodup

theorem distinctNames_iff {l : NodeLabel} :
    DistinctNames l (n.children.map Tree.label) ↔ (childNames n).Nodup := by
  rw [childNames_eq]
  rfl

theorem clashFree_iff : ClashFree n ↔ n.Everywhere DistinctNames :=
  forall₂_congr fun _ _ => distinctNames_iff.symm

theorem hereditary_distinctNames : Tree.Hereditary DistinctNames :=
  fun _ _ _ hsub h => h.sublist ((hsub.filter _).map _)

theorem unmarked_distinctNames : Augmentation.Unmarked DistinctNames where
  marked := by
    intro l ls h
    unfold DistinctNames at h ⊢
    rw [List.filter_map, List.map_map]
    exact h
  conditions := fun _ _ _ h => h

end Node

/-- No tree has a clash. -/
def Forest.ClashFree (f : Forest) : Prop := ∀ t ∈ f, Node.ClashFree t.root

instance (f : Forest) : Decidable f.ClashFree :=
  inferInstanceAs (Decidable (∀ t ∈ f, Node.ClashFree t.root))

theorem Forest.clashFree_iff {f : Forest} : f.ClashFree ↔ f.Everywhere Node.DistinctNames :=
  forall₂_congr fun _ _ => Node.clashFree_iff

/-! ## Augments -/

namespace Augmentation

variable {model : DeclaredModel} {f g : Forest} {a n : Node} {xs : List Node}

/-- A node that admits an augment has different names still when it has been applied. -/
theorem Admits.nodup_childNames (hadmits : Admits a n) (hn : (Node.childNames n).Nodup) :
    (Node.childNames (n.addChildren (copies a))).Nodup := by
  have hadded : (((copies a).filter Node.isSchemaNode).map nameOf).Sublist
      ((content a).map nameOf) := by
    rw [← map_nameOf_copies]
    exact List.filter_sublist.map nameOf
  rw [Node.childNames_addChildren]
  refine List.nodup_append'.2 ⟨hn, hadmits.distinct.sublist hadded, ?_⟩
  intro k hk hk'
  obtain ⟨c, hc, rfl⟩ := List.mem_map.1 (hadded.subset hk')
  exact hadmits.free c hc hk

theorem clashFree_applyOne (distinct : (f.map (·.id)).Nodup) (hf : f.ClashFree)
    (hcontent : a.ClashFree) (ha : applyOne model f a = .ok g) : g.ClashFree := by
  rw [Forest.clashFree_iff] at hf ⊢
  rw [Node.clashFree_iff] at hcontent
  obtain ⟨t, ht, hadmits, hkeeps⟩ :=
    everywhere_applyOne_iff Node.unmarked_distinctNames distinct hf hcontent ha
  have hbefore := (hf.node? (Forest.node?_of_locate ht)).root
  rw [Node.distinctNames_iff] at hbefore
  exact hkeeps.2 (Node.distinctNames_iff.2 (hadmits.nodup_childNames hbefore))

/-- Augments that are applied in turn keep siblings apart. -/
theorem clashFree_applyInTurn (distinct : (f.map (·.id)).Nodup) (hf : f.ClashFree)
    (hcontent : ∀ a ∈ xs, a.ClashFree) (hrun : applyInTurn model f xs = .ok g) : g.ClashFree := by
  refine applyInTurn_invariant (P := Forest.ClashFree) ?_ distinct hf hrun
  intro a ha h h' hdistinct hfree hstep
  exact clashFree_applyOne hdistinct hfree (hcontent a ha) hstep

/-! ### What augments leave alone -/

/-- Changing a node with a name does not change which nodes satisfy a condition that no node with a
name satisfies. -/
theorem filter_changeFirst {p : Node → Bool} {k : Node.Name} {g : Node → Node} {ns : List Node}
    (hp : ∀ n, Node.hasName k n = true → p n = false ∧ p (g n) = false) :
    (Node.changeFirst k g ns).filter p = ns.filter p := by
  induction ns with
  | nil => rfl
  | cons n ns ih =>
    by_cases hn : Node.hasName k n = true
    · obtain ⟨hbefore, hafter⟩ := hp n hn
      rw [Node.changeFirst_cons_of_pos hn, List.filter_cons_of_neg (by simp [hafter]),
        List.filter_cons_of_neg (by simp [hbefore])]
    · rw [Node.changeFirst_cons_of_neg hn, List.filter_cons, List.filter_cons, ih]

/-- Where names lead, no statement grows that has no name. -/
theorem childrenOfKind_grow {kind : Kind} {cs : List Node} {k : Node.Name} {ks : List Node.Name}
    (hkind : kind.isSchemaNode = false) :
    Node.childrenOfKind (Node.grow cs (k :: ks) n) kind = Node.childrenOfKind n kind := by
  have hnot : ∀ n, Node.isSchemaNode n = true → Node.is n kind = false := by
    intro n hn
    rw [Bool.eq_false_iff]
    intro his
    unfold Node.isSchemaNode NodeLabel.isSchemaNode at hn
    rw [show n.label.kind? = some kind from beq_iff_eq.1 his, Option.any_some, hkind] at hn
    cases hn
  apply filter_changeFirst
  intro m hm
  -- the node that is changed has a name, before and after
  have hschema := (Bool.and_eq_true_iff.1 hm).1
  refine ⟨hnot m hschema, hnot _ ?_⟩
  unfold Node.isSchemaNode at hschema ⊢
  rwa [Node.label_grow]

/-- Applying all augments changes no statement at the top of modules that has no name. -/
theorem statements_of_applyAll {kind : Kind} (hkind : kind.isSchemaNode = false)
    (distinct : (f.map (·.id)).Nodup) (happly : applyAll model f = .ok g) :
    g.flatMap (·.statements kind) = f.flatMap (·.statements kind) := by
  obtain ⟨xs, _, hrun⟩ := exists_applyInTurn_of_applyAll distinct happly
  refine applyInTurn_invariant
    (P := fun h => h.flatMap (·.statements kind) = f.flatMap (·.statements kind))
    ?_ distinct rfl hrun
  intro a _ h h' hdistinct hsame hstep
  rw [← hsame]
  obtain ⟨ks, _, _, _, _, rfl⟩ := (applyOne_eq_ok hdistinct).1 hstep
  cases ks with
  | nil => rfl
  | cons k ks =>
    rw [Forest.grow, Forest.update, List.flatMap_map]
    apply List.flatMap_congr
    intro t _
    split
    · exact childrenOfKind_grow hkind
    · rfl

end Augmentation

/-! ## Statements that are copied as they are -/

namespace Expansion

variable {e : Expansion} {grouping : Site → Building (List Node)} {s : DeclaredSource}
  {addedByUses isMember : Bool} {scope : Scope} {d : Declaration} {nodes : List Node}
  {t u : TypeTable}

/-- What holds no `uses` becomes one node, and below it is as it is declared. -/
theorem map_binding_of_copy (hd : d.Grammatical) (hholds : d.holdsUses = false)
    (h : copy e grouping s addedByUses isMember scope d t = .ok (nodes, u)) :
    ∃ n, nodes = [n] ∧ n.map (·.binding) = d.map (·.binding) := by
  induction d using Tree.induct generalizing addedByUses isMember scope nodes t u with
  | step d ih =>
    have hnot : ¬ IsUses d := by
      intro huses
      rw [Declaration.holdsUses_of_binding huses rfl] at hholds
      cases hholds
    -- the substatements are copied one after the other, whatever comes of the table of types
    have hcopied : ∀ ds, (∀ c ∈ ds, c ∈ d.children) → ∀ {abu ism scope nodes t u},
        copyAll e grouping s abu ism scope (fun _ => true) ds t = .ok (nodes, u) →
          nodes.map (Tree.map (·.binding)) = ds.map (Tree.map (·.binding)) := by
      intro ds
      induction ds with
      | nil =>
        intro _ _ _ _ _ _ _ h
        rw [copyAll] at h
        cases h
        rfl
      | cons c ds ihds =>
        intro hmem _ _ _ _ _ _ h
        obtain ⟨hc, hds⟩ := List.forall_mem_cons.1 hmem
        rw [copyAll, if_pos rfl] at h
        obtain ⟨part, v, hpart, h⟩ := Building.bind_eq_ok.1 h
        obtain ⟨rest, w, hrest, hreturn⟩ := Building.bind_eq_ok.1 h
        cases hreturn
        obtain ⟨n, rfl, hn⟩ := ih c hc (hd.child hc) (hd.not_holdsUses_child hholds hc) hpart
        rw [List.map_append, ihds hds hrest, List.map_singleton, hn]
        rfl
    obtain ⟨type, v, copied, _, hchildren, rfl⟩ := steps_of_not_uses hnot h
    refine ⟨_, rfl, ?_⟩
    have hsame := hcopied d.children (fun _ hc => hc) hchildren
    obtain ⟨label, children⟩ := d
    rw [Tree.map, Tree.map, Tree.mapForest_eq, Tree.mapForest_eq, hsame]
    rfl

/-- So it follows the grammar. -/
theorem followsGrammar_of_copy {n : Node} (hd : d.Grammatical) (hholds : d.holdsUses = false)
    (h : copy e grouping s addedByUses isMember scope d t = .ok (nodes, u)) (hn : n ∈ nodes) :
    Node.FollowsGrammar n := by
  obtain ⟨n', rfl, hbindings⟩ := map_binding_of_copy hd hholds h
  rw [List.mem_singleton.1 hn]
  have hdeclared : (d.map (·.binding)).Everywhere
      fun b bs => ∀ c ∈ bs, Binding.allows b c = true := by
    refine Tree.Everywhere.map_iff.2 fun x hx => ?_
    simp only [List.forall_mem_map]
    intro c hc
    rw [Binding.allows_iff]
    intro T C hT hC
    obtain ⟨parent, hparent, hallowed⟩ := hd x hx c hc C hC
    cases hparent.symm.trans hT
    exact hallowed
  rw [← hbindings] at hdeclared
  rw [Node.followsGrammar_iff]
  intro x hx
  have hcondition := (Tree.Everywhere.map_iff.1 hdeclared) x hx
  unfold Node.Grammatical
  simpa only [List.forall_mem_map] using hcondition

end Expansion

/-! ## Deviations -/

namespace Deviation

variable {model : DeclaredModel} {f g h : Forest} {d n property target : Node}
  {order : Bool} {sources : List Source}

/-- The deviations of instantiated modules follow the grammar. -/
theorem followsGrammar_of_instantiated
    (declared : DeclaredModel.ofSources order sources = .ok model)
    (instantiated : Forest.ofModel model = .ok f)
    (hd : d ∈ f.flatMap (·.statements .deviation)) : Node.FollowsGrammar d := by
  obtain ⟨tree, htree, hd⟩ := List.mem_flatMap.1 hd
  obtain ⟨nodes, u, hnodes, hd, hbinding⟩ :=
    Forest.exists_nodes_of_statements instantiated htree hd
  obtain ⟨s, hs, x, hx, v, w, part, hcopy, hd⟩ := Expansion.exists_copy_of_mem_nodes hnodes hd
  rcases Expansion.origin_of_copy (fun _ _ _ => Expansion.isBrought_of_ofGrouping) hcopy hd with
    ⟨_, _, hcontent, _⟩ | ⟨_, horigin⟩
  · -- a `deviation` is not content of a grouping
    rw [hbinding] at hcontent
    cases hcontent
  · have hgrammar := (DeclaredModel.grammatical_of_ofSources declared
      (DeclaredModel.mem_of_family hs)).child hx
    have hxbinding : x.label.binding = .builtin .deviation := by
      rw [← hbinding]
      exact (Prod.mk.inj horigin).2.symm
    have hholds : Declaration.holdsUses x = false := by
      unfold Declaration.holdsUses
      rw [Declaration.kind?_eq_some_iff.2 hxbinding]
      rfl
    exact Expansion.followsGrammar_of_copy hgrammar hholds hcopy hd

/-- What a `deviate` may have is no schema node. -/
theorem not_isSchemaNode_of_deviate {C : Kind} (h : (Kind.deviate.substatement? C).isSome = true) :
    C.isSchemaNode = false := by
  have hall : ∀ C ∈ Kind.all, (Kind.deviate.substatement? C).isSome = true →
      C.isSchemaNode = false := by decide +kernel
  exact hall C (Kind.mem_all C) h

/-- The properties that a deviation states have no names in schema paths. -/
theorem not_isSchemaNode_property (hd : Node.FollowsGrammar d)
    (hn : n ∈ Node.childrenOfKind d .deviate) (hproperty : property ∈ n.children) :
    Node.isSchemaNode property = false := by
  obtain ⟨hn, hkind⟩ := List.mem_filter.1 hn
  have hallows := hd n (Tree.mem_subtrees_of_mem_child hn (Tree.mem_subtrees_self n))
    property hproperty
  rw [Binding.allows_iff] at hallows
  unfold Node.isSchemaNode NodeLabel.isSchemaNode
  cases hC : property.label.kind? with
  | none => rfl
  | some C => exact not_isSchemaNode_of_deviate (hallows .deviate C (beq_iff_eq.1 hkind) hC)

/-! ### One deviation -/

/-- A node that has been changed to `n'` in the course of a deviation: it is the same node, and no
clash has come below it. -/
structure Adjusted (n n' : Node) : Prop where
  label : n'.label = n.label
  clashFree : Node.ClashFree n'

theorem Adjusted.addChild {n' : Node} (h : Adjusted n n')
    (hname : Node.isSchemaNode property = false) (hproperty : Node.ClashFree property) :
    Adjusted n (n'.addChild property) := by
  refine ⟨h.label, ?_⟩
  have hfree := Node.clashFree_iff.1 h.clashFree
  refine Node.clashFree_iff.2 (hfree.addChildren ?_ ?_)
  · intro c hc
    rw [List.mem_singleton.1 hc]
    exact Node.clashFree_iff.1 hproperty
  · -- a property has no name, so the names of the children are what they were
    have hsame : Node.childNames (n'.addChildren [property]) = _ := Node.childNames_addChildren
    rw [List.filter_cons_of_neg (by simp [hname]), List.filter_nil, List.map_nil,
      List.append_nil] at hsame
    show Node.DistinctNames n'.label ((n'.addChildren [property]).children.map Tree.label)
    rw [Node.distinctNames_iff, hsame]
    exact h.clashFree n' (Tree.mem_subtrees_self n')

theorem Adjusted.removeChildren {n' : Node} {p : Node → Bool} (h : Adjusted n n') :
    Adjusted n (n'.removeChildren p) :=
  ⟨h.label, Node.clashFree_iff.2
    ((Node.clashFree_iff.1 h.clashFree).removeChildren Node.hereditary_distinctNames)⟩

theorem Adjusted.remove {n' : Node} {p : List Nat} (h : Adjusted n n') :
    Adjusted n (Tree.remove p n') :=
  ⟨Tree.label_remove.trans h.label, Node.clashFree_iff.2
    ((Node.clashFree_iff.1 h.clashFree).remove Node.hereditary_distinctNames)⟩

/-- A property is added, replaces others or takes one out. -/
theorem Adjusted.applyProperty {deviate : Deviate} {targetKind : Kind} {n' : Node}
    (h : Adjusted n target) (hname : Node.isSchemaNode property = false)
    (hproperty : Node.ClashFree property)
    (hok : applyProperty d deviate targetKind target property = .ok n') : Adjusted n n' := by
  unfold Deviation.applyProperty at hok
  split at hok
  · cases hok
    exact h
  · split at hok
    · cases hok
    · cases deviate with
      | notSupported =>
        cases hok
        exact h
      | add =>
        dsimp only at hok
        unfold added at hok
        split at hok
        · cases hok
        · cases hok
          exact h.addChild hname hproperty
      | replace =>
        dsimp only at hok
        unfold replaced at hok
        split at hok
        · cases hok
          exact h.removeChildren.addChild hname hproperty
        · cases hok
      | delete =>
        dsimp only at hok
        unfold deleted at hok
        dsimp only at hok
        split at hok
        · cases hok
          exact h.remove
        · cases hok

/-- The `deviate` statements of a deviation that are applied are among its children. -/
theorem mem_childrenOfKind_of_deviates {ds : List (Deviate × Node)} {deviate : Deviate × Node}
    (h : deviates d = .ok ds) (hmem : deviate ∈ ds) :
    deviate.2 ∈ Node.childrenOfKind d .deviate := by
  obtain ⟨n, hn, hread⟩ := Result.exists_of_mem_mapM h hmem
  dsimp only at hread
  split at hread
  · cases hread
    exact hn
  · cases hread

/-- All properties of a deviation are applied. -/
theorem Adjusted.applyProperties {ds : List (Deviate × Node)} {targetKind : Kind} {n' : Node}
    (h : Adjusted n n) (hd : Node.FollowsGrammar d) (hfree : Node.ClashFree d)
    (hds : deviates d = .ok ds) (hok : applyProperties d targetKind n ds = .ok n') :
    Adjusted n n' := by
  refine Result.foldlM_invariant_of_mem (P := Adjusted n) ?_ h hok
  intro deviate hdeviate x y hx hy
  have hmem := mem_childrenOfKind_of_deviates hds hdeviate
  refine Result.foldlM_invariant_of_mem (P := Adjusted n) ?_ hx hy
  intro property hproperty x y hx hy
  refine hx.applyProperty (not_isSchemaNode_property hd hmem hproperty) ?_ hy
  have hbelow := (Node.clashFree_iff.1 hfree).child (List.mem_of_mem_filter hmem)
  exact Node.clashFree_iff.2 (hbelow.child hproperty)

/-- One deviation keeps siblings apart. -/
theorem clashFree_apply (distinct : (f.map (·.id)).Nodup) (hf : f.ClashFree)
    (hd : Node.FollowsGrammar d) (hfree : Node.ClashFree d) (hok : apply model f d = .ok g) :
    g.map (·.id) = f.map (·.id) ∧ g.ClashFree := by
  rw [Forest.clashFree_iff] at hf ⊢
  obtain ⟨t, ht, hok⟩ := Result.bind_eq_ok.1 hok
  have hnode : f.node? ⟨t.module, t.address⟩ = some t.node := by
    unfold Deviation.target at ht
    split at ht
    · rename_i hlocate
      cases ht
      exact Forest.node?_of_locate hlocate
    · cases ht
  split at hok
  · cases hok
  · obtain ⟨ds, hds, hok⟩ := Result.bind_eq_ok.1 hok
    split at hok
    · split at hok
      · cases hok
      · cases hok
        exact ⟨Forest.map_id_update, hf.remove Node.hereditary_distinctNames distinct hnode⟩
    · obtain ⟨n', hn', hreturn⟩ := Result.bind_eq_ok.1 hok
      cases hreturn
      have hbefore : Adjusted t.node t.node := ⟨rfl, Node.clashFree_iff.2 (hf.node? hnode)⟩
      have hadjusted := hbefore.applyProperties hd hfree hds hn'
      exact ⟨Forest.map_id_update,
        hf.replace distinct hnode hadjusted.label (Node.clashFree_iff.1 hadjusted.clashFree)⟩

/-- Augments and deviations keep the names of siblings apart. Where no node of the instantiated
modules has two schema nodes of the same module and name among its children, none has after all
augments have been applied, and none has after all deviations, however many there are and whatever
other augments have added. -/
theorem sibling_names_stay_unique (declared : DeclaredModel.ofSources order sources = .ok model)
    (instantiated : Forest.ofModel model = .ok f) (hf : f.ClashFree)
    (happly : Augmentation.applyAll model f = .ok g) :
    g.ClashFree ∧ ∀ h, applyAll model g = .ok h → h.ClashFree := by
  have distinct := Augmentation.nodup_of_ofModel declared instantiated
  have atTop {kind : Kind} {x : Node} (hx : x ∈ f.flatMap (·.statements kind)) :
      Node.ClashFree x :=
    Node.clashFree_iff.2 ((Forest.clashFree_iff.1 hf).statements hx)
  obtain ⟨xs, hperm, hrun⟩ := Augmentation.exists_applyInTurn_of_applyAll distinct happly
  have distinct' : (g.map (·.id)).Nodup := by
    rwa [Augmentation.map_id_of_applyInTurn hrun]
  have hg := Augmentation.clashFree_applyInTurn distinct hf
    (fun a ha => atTop (hperm.mem_iff.1 ha)) hrun
  refine ⟨hg, fun h hok => ?_⟩
  -- the deviations are those of the instantiated modules
  unfold applyAll at hok
  rw [Augmentation.statements_of_applyAll rfl distinct happly] at hok
  have hkept : (h.map (·.id)).Nodup ∧ h.ClashFree := by
    refine Result.foldlM_invariant_of_mem (P := fun k => (k.map (·.id)).Nodup ∧ k.ClashFree)
      ?_ ⟨distinct', hg⟩ hok
    rintro d hd k k' ⟨hdistinct, hfree⟩ hstep
    obtain ⟨hids, hfree'⟩ := clashFree_apply hdistinct hfree
      (followsGrammar_of_instantiated declared instantiated hd) (atTop hd) hstep
    exact ⟨by rwa [hids], hfree'⟩
  exact hkept.2

/-- A module with a container, an augment that adds to what another one adds, a deviation that
changes what has been added, and one that takes out what was there. -/
def deviatedModule : List Source :=
  [.bareModule "a" [.bare "container" "c" [.bare "leaf" "x" [.bare "type" "string" []]],
    .bare "augment" "/c/d" [.bare "leaf" "x" [.bare "type" "string" []]],
    .bare "augment" "/c" [.bare "container" "d" []],
    .bare "deviation" "/c/d/x" [.bare "deviate" "add" [.bare "default" "y" []]],
    .bare "deviation" "/c/x" [.bare "deviate" "not-supported" []]]]

/-- Its declared model. -/
def deviatedModel : DeclaredModel := .ofLinkage Augmentation.loneLinkage deviatedModule

/-- What is evaluated of it: it can be declared, and its augments and deviations are applied to
trees without clashes. -/
theorem evaluated_deviatedModule :
    DeclaredModel.canDeclare Augmentation.loneLinkage deviatedModule = true
      ∧ (do
        let f ← Forest.ofModel deviatedModel
        let g ← Augmentation.applyAll deviatedModel f
        let _ ← applyAll deviatedModel g
        return decide (f.ClashFree ∧ (f.flatMap (·.statements .augment)).length = 2
          ∧ (g.flatMap (·.statements .deviation)).length = 2) : Result Bool) = .ok true := by
  decide +kernel

theorem ofSources_deviatedModule :
    DeclaredModel.ofSources true deviatedModule = .ok deviatedModel :=
  DeclaredModel.ofSources_eq_ofLinkage (by cbv) rfl (by cbv) evaluated_deviatedModule.1

/-- After two augments and two deviations, all names of siblings are different. -/
theorem sibling_names_stay_unique_deviated : ∃ f g h, Forest.ofModel deviatedModel = .ok f
    ∧ Augmentation.applyAll deviatedModel f = .ok g ∧ applyAll deviatedModel g = .ok h
    ∧ (f.flatMap (·.statements .augment)).length = 2
    ∧ (g.flatMap (·.statements .deviation)).length = 2
    ∧ f.ClashFree ∧ g.ClashFree ∧ h.ClashFree := by
  obtain ⟨-, h⟩ := evaluated_deviatedModule
  obtain ⟨f, instantiated, h⟩ := Result.bind_eq_ok.1 h
  obtain ⟨g, haugment, h⟩ := Result.bind_eq_ok.1 h
  obtain ⟨k, hdeviate, h⟩ := Result.bind_eq_ok.1 h
  obtain ⟨hf, haugments, hdeviations⟩ := of_decide_eq_true (Except.ok.inj h)
  obtain ⟨hg, hall⟩ :=
    sibling_names_stay_unique ofSources_deviatedModule instantiated hf haugment
  exact ⟨f, g, k, instantiated, haugment, hdeviate, haugments, hdeviations, hf, hg,
    hall k hdeviate⟩

end Deviation

end YangSchema
