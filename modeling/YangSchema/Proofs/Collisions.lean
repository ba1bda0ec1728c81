import YangSchema.Proofs.AugmentGrammar
import YangSchema.Proofs.UsesFrame

/-!
# Names that collide

An `augment` must not add a node whose name another node has: neither one that stands under the
target nor one that it adds itself. At the top of a module both is seen to (`Augmentation.splice`),
since every name that is added is taken from then on. Under a `uses` the names that are taken are
listed before anything is added, and what is added is not compared with itself
(`Expansion.augment`): an `augment` that brings one name twice is applied.

So the two come to the same exactly where the names that are added are different
(`Expansion.augment_under_uses_compares_less`). Names are compared without their modules under a
`uses`; as all nodes there live in one module, this makes no difference.
-/

namespace YangSchema

namespace Augmentation

theorem mem_of_firstClash? {taken : List (SourceId × String)} {n : Node} {ns : List Node}
    (h : firstClash? taken ns = some n) : n ∈ ns := by
  induction ns generalizing taken with
  | nil => cases h
  | cons m ns ih =>
    rw [firstClash?_cons] at h
    split at h
    · cases h
      exact List.mem_cons_self
    · exact List.mem_cons_of_mem m (ih h)

/-- Where a target can be augmented, only a name can stand in the way. -/
theorem splice_of_not_ok {a target : Node}
    (haugmentable : (Node.kind? target).any (·.isAugmentable) = true)
    (h : ¬ ∃ x, splice a target = .ok x) : ∃ n ∈ content a,
      splice a target = .error (error a (.nameTaken (Node.schemaName n))) := by
  unfold splice at h ⊢
  rw [haugmentable, Bool.not_true, if_neg Bool.false_ne_true] at h ⊢
  cases hclash : firstClash? ((Node.schemaChildren target).map nameOf) (content a) with
  | some n => exact ⟨n, mem_of_firstClash? hclash, rfl⟩
  | none =>
    rw [hclash] at h
    exact absurd ⟨_, rfl⟩ h

end Augmentation

namespace Expansion

open Augmentation (nameOf content splice)

variable {e : Expansion} {grouping : Site → Building (List Node)} {s : DeclaredSource}
  {scope : Scope} {source : SourceId} {label : Declared} {conditions : List Condition}
  {a : Declaration} {n target : Node} {nodes added : List Node} {address : List Nat}
  {depth : Nat} {pending : List Definition.Pending} {t u : TypeTable}

/-! ## What is added -/

/-- The content of an `augment`, once copied, is schema nodes of the module. -/
theorem isSchemaNode_of_added (hadded : copyAll e (e.ofGrouping depth pending) s true false scope
      Node.isAugmentContent a.children t = .ok (added, u)) (hn : n ∈ added) :
    Node.isSchemaNode n = true ∧ n.label.module = e.module := by
  obtain ⟨d, _, hcontent, v, w, part, hcopy, hn⟩ := exists_copy_of_mem hadded hn
  have hgrouping : ∀ site t r, e.ofGrouping depth pending site t = .ok r →
      ∀ n ∈ r.1, IsBrought e n := fun _ _ _ => isBrought_of_ofGrouping
  rcases origin_of_copy hgrouping hcopy hn with ⟨_, hmodule, hbinding, hne⟩ | ⟨hnot, horigin⟩
  · refine ⟨Augmentation.isSchemaNode_of_isAugmentContent ?_ hne, hmodule⟩
    exact Bool.or_eq_true_iff.2 (.inl hbinding)
  · obtain ⟨hmodule, hbinding⟩ := Prod.mk.inj horigin
    rw [← hbinding] at hcontent
    refine ⟨Augmentation.isSchemaNode_of_isAugmentContent hcontent ?_, hmodule⟩
    rw [hbinding]
    exact hnot

/-! ## Under a `uses` -/

/-- Copying a `uses` comes to an `augment` below it, with the nodes that its grouping has brought,
refined, and with what the `augment` statements before this one have added to them. -/
def ComesToAugment (e : Expansion) (grouping : Site → Building (List Node)) (s : DeclaredSource)
    (scope : Scope) (uses a : Declaration) (nodes : List Node) (t : TypeTable) : Prop :=
  ∃ definition v brought w refined before after,
    Definition.resolve e.model s .grouping uses.label scope = .ok definition
      ∧ grouping ⟨s.id, uses.label.location, definition⟩ v = .ok (brought, w)
      ∧ e.refineAll s.id
          (brought.map (Node.addConditions (Node.conditionsOfDeclarations s.id uses.children)))
          (uses.children.filter (Declaration.is · .refine)) = .ok refined
      ∧ uses.children.filter isAugment = before ++ a :: after
      ∧ before.foldlM (augmentOne e grouping s scope) refined w = .ok (nodes, t)

/-- All of these nodes live in the module. -/
theorem ComesToAugment.all_isAdded {uses : Declaration}
    (h : ComesToAugment e (e.ofGrouping depth pending) s scope uses a nodes t) :
    ∀ n ∈ nodes, n.All e.IsAdded := by
  obtain ⟨_, _, brought, _, refined, before, _, _, hbrought, hrefined, _, hbefore⟩ := h
  have hP := imprint_isAdded e
  have hconditions : ∀ n ∈ brought.map
      (Node.addConditions (Node.conditionsOfDeclarations s.id uses.children)),
      n.All e.IsAdded := by
    intro n hn
    obtain ⟨x, hx, rfl⟩ := List.mem_map.1 hn
    exact hP.all_addConditions (hP.all_ofGrouping hbrought x hx)
  have hrefinedAll := Result.foldlM_invariant (P := fun ns => ∀ n ∈ ns, n.All e.IsAdded)
    (fun _ _ _ hn hstep => hP.all_refine hn hstep) hconditions hrefined
  exact Building.foldlM_invariant (P := fun ns => ∀ n ∈ ns, n.All e.IsAdded)
    (fun _ _ _ _ _ _ hn hstep => hP.all_augmentOne hn (fun c _ _ _ _ _ hcopy =>
      hP.all_copy (fun _ _ _ => hP.all_ofGrouping) c (.inl rfl) hcopy) hstep) hrefinedAll hbefore

theorem augment_of_free
    (h : ∀ n ∈ added, Node.schemaName n ∉ target.schemaChildren.map Node.schemaName) :
    augment source label conditions target added = .ok (target.addChildren
      (added.map fun n => (n.addConditions conditions).markAugmenting)) := by
  have hnone : (added.find? fun n => n.schemaName ∈ target.schemaChildren.map Node.schemaName)
      = none := List.find?_eq_none.2 fun n hn => by simpa using h n hn
  unfold augment
  dsimp only
  rw [hnone]

theorem augment_of_taken
    (h : ∃ n ∈ added, Node.schemaName n ∈ target.schemaChildren.map Node.schemaName) :
    ∃ n ∈ added, augment source label conditions target added
      = .error (.augment source label.location (label.argument.getD "")
          (.nameTaken n.schemaName)) := by
  obtain ⟨n, hn, htaken⟩ := h
  have hsome : (added.find? fun n =>
      n.schemaName ∈ target.schemaChildren.map Node.schemaName).isSome = true :=
    List.find?_isSome.2 ⟨n, hn, decide_eq_true htaken⟩
  obtain ⟨m, hm⟩ := Option.isSome_iff_exists.1 hsome
  refine ⟨m, List.mem_of_find?_eq_some hm, ?_⟩
  unfold augment
  dsimp only
  rw [hm]
  rfl

/-- Where all nodes live in one module, names are taken if they are taken with their module. -/
theorem mem_childNames_iff (htarget : ∀ c ∈ target.children, c.label.module = e.module)
    (hn : n.label.module = e.module) : nameOf n ∈ Node.childNames target
      ↔ Node.schemaName n ∈ target.schemaChildren.map Node.schemaName := by
  unfold Node.childNames
  rw [List.mem_map, List.mem_map]
  refine exists_congr fun c => and_congr_right fun hc => ?_
  unfold nameOf
  rw [htarget c (List.mem_of_mem_filter hc), hn, Prod.mk.injEq, and_iff_right rfl]

theorem augmentOne_eq_ok (htarget : augmentTarget s.id a.label nodes = .ok (address, target))
    (hadded : copyAll e grouping s true false (scope.enter s a) Node.isAugmentContent a.children t
      = .ok (added, u)) {n : Node} (h : augment s.id a.label
        (Node.conditionsOfDeclarations s.id a.children) target added = .ok n) :
    augmentOne e grouping s scope nodes a t = .ok (Tree.forestReplace n nodes address, u) :=
  Building.bind_eq_ok.2 ⟨_, t, Building.lift_eq_ok.2 ⟨htarget, rfl⟩,
    Building.bind_eq_ok.2 ⟨_, u, hadded,
      Building.bind_eq_ok.2 ⟨_, u, Building.lift_eq_ok.2 ⟨h, rfl⟩, rfl⟩⟩⟩

theorem augmentOne_eq_error (htarget : augmentTarget s.id a.label nodes = .ok (address, target))
    (hadded : copyAll e grouping s true false (scope.enter s a) Node.isAugmentContent a.children t
      = .ok (added, u)) {error : Error} (h : augment s.id a.label
        (Node.conditionsOfDeclarations s.id a.children) target added = .error error) :
    augmentOne e grouping s scope nodes a t = .error error :=
  Building.bind_eq_error.2 (.inr ⟨_, t, Building.lift_eq_ok.2 ⟨htarget, rfl⟩,
    Building.bind_eq_error.2 (.inr ⟨_, u, hadded,
      Building.bind_eq_error.2 (.inl (Building.lift_eq_error.2 h))⟩)⟩)

/-! ## The two rules -/

/-- **An `augment` under a `uses` compares less than one at the top.** When it comes to an `augment`
under a `uses`, whose target has been found and whose content has been copied, this succeeds exactly
if no name of the content is taken under the target. An `augment` of the same names at the top is
applied to this target if moreover these names are different from each other, and otherwise fails
because of one of them. -/
theorem augment_under_uses_compares_less {uses : Declaration}
    (hcomes : ComesToAugment e (e.ofGrouping depth pending) s scope uses a nodes t)
    (htarget : augmentTarget s.id a.label nodes = .ok (address, target))
    (hadded : copyAll e (e.ofGrouping depth pending) s true false (scope.enter s a)
      Node.isAugmentContent a.children t = .ok (added, u)) :
    (∀ n ∈ added, Node.isSchemaNode n = true ∧ n.label.module = e.module)
    ∧ ((∃ r, augmentOne e (e.ofGrouping depth pending) s scope nodes a t = .ok r)
      ↔ ∀ n ∈ added, nameOf n ∉ Node.childNames target)
    ∧ ((∃ n ∈ added, nameOf n ∈ Node.childNames target) → ∃ n ∈ added,
      augmentOne e (e.ofGrouping depth pending) s scope nodes a t = .error (.augment s.id
        a.label.location (a.label.argument.getD "") (.nameTaken (Node.schemaName n))))
    ∧ ∀ b, (content b).map nameOf = added.map nameOf →
      ((∃ x, splice b target = .ok x)
        ↔ (added.map nameOf).Nodup
          ∧ ∃ r, augmentOne e (e.ofGrouping depth pending) s scope nodes a t = .ok r)
      ∧ ((¬ ∃ x, splice b target = .ok x) → ∃ n ∈ content b,
        splice b target = .error (Augmentation.error b (.nameTaken (Node.schemaName n)))) := by
  obtain ⟨hsub, haugmentable⟩ := augmentTarget_eq_ok htarget
  have hall : target.All e.IsAdded := .forestSubtree? hcomes.all_isAdded hsub
  have hmodule : ∀ c ∈ target.children, c.label.module = e.module :=
    fun c hc => (Tree.all_iff.1 ((Tree.all_iff.1 hall).2 c hc)).1.1
  have hcontent := fun n (hn : n ∈ added) => isSchemaNode_of_added hadded hn
  have htaken := fun n (hn : n ∈ added) => mem_childNames_iff hmodule (hcontent n hn).2
  have hfails : (∃ n ∈ added, nameOf n ∈ Node.childNames target) → ∃ n ∈ added,
      augmentOne e (e.ofGrouping depth pending) s scope nodes a t = .error (.augment s.id
        a.label.location (a.label.argument.getD "") (.nameTaken (Node.schemaName n))) := by
    rintro ⟨n, hn, hclash⟩
    obtain ⟨m, hm, herror⟩ : ∃ m ∈ added, augment s.id a.label
        (Node.conditionsOfDeclarations s.id a.children) target added = .error (.augment s.id
          a.label.location (a.label.argument.getD "") (.nameTaken (Node.schemaName m))) :=
      augment_of_taken ⟨n, hn, (htaken n hn).1 hclash⟩
    exact ⟨m, hm, augmentOne_eq_error htarget hadded herror⟩
  have hsucceeds : (∃ r, augmentOne e (e.ofGrouping depth pending) s scope nodes a t = .ok r)
      ↔ ∀ n ∈ added, nameOf n ∉ Node.childNames target := by
    constructor
    · rintro ⟨r, hr⟩ n hn hclash
      obtain ⟨_, _, herror⟩ := hfails ⟨n, hn, hclash⟩
      cases hr.symm.trans herror
    · intro hfree
      exact ⟨_, augmentOne_eq_ok htarget hadded
        (augment_of_free fun n hn => (htaken n hn).not.1 (hfree n hn))⟩
  refine ⟨hcontent, hsucceeds, hfails, fun b hb => ⟨?_, fun hnot => ?_⟩⟩
  · rw [hsucceeds]
    have hfree : (∀ c ∈ content b, nameOf c ∉ Node.childNames target)
        ↔ ∀ n ∈ added, nameOf n ∉ Node.childNames target := by
      rw [← List.forall_mem_map (P := (· ∉ Node.childNames target)), hb, List.forall_mem_map]
    constructor
    · rintro ⟨x, hx⟩
      obtain ⟨hadmits, _⟩ := Augmentation.splice_eq_ok.1 hx
      exact ⟨hb ▸ hadmits.distinct, hfree.1 hadmits.free⟩
    · rintro ⟨hdistinct, hrest⟩
      exact ⟨_, Augmentation.splice_eq_ok.2 ⟨⟨haugmentable, hb ▸ hdistinct, hfree.2 hrest⟩, rfl⟩⟩
  · exact Augmentation.splice_of_not_ok haugmentable hnot

/-- A grouping with a container, and a `uses` that adds two leaves to it. -/
def leavesUnderUses (x y : String) : List Source :=
  [.bareModule "a" [.bare "grouping" "g" [.bare "container" "c" []],
    .bare "uses" "g" [.bare "augment" "c" [.bare "leaf" x [.bare "type" "string" []],
      .bare "leaf" y [.bare "type" "int8" []]]]]]

/-- How it is instantiated. -/
def leavesExpansion (x y : String) : Expansion :=
  ⟨.ofLinkage Augmentation.loneLinkage (leavesUnderUses x y), ⟨"a", none⟩⟩

theorem augment_under_uses_compares_less_two : ∃ s uses a nodes t address target added u b,
    ComesToAugment (leavesExpansion "x" "y")
        ((leavesExpansion "x" "y").ofGrouping 1 []) s (.top ⟨"a", none⟩) uses a nodes t
      ∧ augmentTarget s.id a.label nodes = .ok (address, target)
      ∧ copyAll (leavesExpansion "x" "y") ((leavesExpansion "x" "y").ofGrouping 1 []) s true false
        ((Scope.top ⟨"a", none⟩).enter s a) Node.isAugmentContent a.children t = .ok (added, u)
      ∧ added.length = 2 ∧ (content b).map nameOf = added.map nameOf
      ∧ ∃ x, splice b target = .ok x := by
  have h : (do
      let source ← ((leavesExpansion "x" "y").model.family ⟨"a", none⟩).head?
      let uses ← source.root.children.find? (Declaration.is · .uses)
      let a ← (uses.children.filter isAugment).head?
      let definition ← (Definition.resolve (leavesExpansion "x" "y").model source .grouping
        uses.label (.top ⟨"a", none⟩)).toOption
      let brought ← ((leavesExpansion "x" "y").ofGrouping 1 []
        ⟨source.id, uses.label.location, definition⟩ []).toOption
      let nodes ← ((leavesExpansion "x" "y").refineAll source.id
        (brought.1.map (Node.addConditions (Node.conditionsOfDeclarations source.id uses.children)))
        (uses.children.filter (Declaration.is · .refine))).toOption
      let found ← (augmentTarget source.id a.label nodes).toOption
      let added ← (copyAll (leavesExpansion "x" "y")
        ((leavesExpansion "x" "y").ofGrouping 1 []) source true false
        ((Scope.top ⟨"a", none⟩).enter source a) Node.isAugmentContent a.children
        brought.2).toOption
      return decide (added.1.length = 2 ∧ (added.1.map nameOf).Nodup
        ∧ (∀ n ∈ added.1, nameOf n ∉ Node.childNames found.2)
        ∧ added.1.all (fun n => Node.isAugmentContent n.label.binding) = true)) = some true := by
    decide +kernel
  obtain ⟨s, _, h⟩ := Option.bind_eq_some_iff.1 h
  obtain ⟨uses, _, h⟩ := Option.bind_eq_some_iff.1 h
  obtain ⟨a, ha, h⟩ := Option.bind_eq_some_iff.1 h
  obtain ⟨definition, hdefinition, h⟩ := Option.bind_eq_some_iff.1 h
  obtain ⟨⟨brought, w⟩, hbrought, h⟩ := Option.bind_eq_some_iff.1 h
  obtain ⟨nodes, hnodes, h⟩ := Option.bind_eq_some_iff.1 h
  obtain ⟨⟨address, target⟩, htarget, h⟩ := Option.bind_eq_some_iff.1 h
  obtain ⟨⟨added, u⟩, hadded, h⟩ := Option.bind_eq_some_iff.1 h
  obtain ⟨hlength, hdistinct, hfree, hcontent⟩ := of_decide_eq_true (Option.some.inj h)
  obtain ⟨after, hafter⟩ := List.head?_eq_some_iff.1 ha
  have hcomes : ComesToAugment (leavesExpansion "x" "y") ((leavesExpansion "x" "y").ofGrouping 1 [])
      s (.top ⟨"a", none⟩) uses a nodes w :=
    ⟨definition, [], brought, w, nodes, [], after, Result.eq_ok_of_toOption hdefinition,
      Result.eq_ok_of_toOption hbrought, Result.eq_ok_of_toOption hnodes, hafter, rfl⟩
  have htarget := Result.eq_ok_of_toOption htarget
  have hadded := Result.eq_ok_of_toOption hadded
  obtain ⟨_, hsucceeds, _, hcompare⟩ := augment_under_uses_compares_less hcomes htarget hadded
  have hsame : (content ⟨target.label, added⟩).map nameOf = added.map nameOf :=
    congrArg (List.map nameOf) (List.filter_eq_self.2 (List.all_eq_true.1 hcontent))
  obtain ⟨hiff, _⟩ := hcompare ⟨target.label, added⟩ hsame
  exact ⟨s, uses, a, nodes, w, address, target, added, u, ⟨target.label, added⟩, hcomes, htarget,
    hadded, hlength, hsame, hiff.2 ⟨hdistinct, hsucceeds.2 hfree⟩⟩

/-- A container to which an `augment` at the top adds one leaf twice. -/
def leavesAtTop : List Source :=
  [.bareModule "a" [.bare "container" "c" [],
    .bare "augment" "/c" [.bare "leaf" "x" [.bare "type" "string" []],
      .bare "leaf" "x" [.bare "type" "int8" []]]]]

/-- Their declared model. -/
def leavesModel : DeclaredModel := .ofLinkage Augmentation.loneLinkage leavesAtTop

/-- The names of the schema nodes under the containers at the top of a module. -/
def namesInContainers (tree : ModuleTree) : List (List String) :=
  (tree.statements .container).map fun c => (Node.schemaChildren c).map Node.schemaName

/-- Under a `uses` one leaf is added twice. At the top this fails. -/
theorem augment_under_uses_repeats_name :
    DeclaredModel.ofSources true (leavesUnderUses "x" "x") = .ok (leavesExpansion "x" "x").model
      ∧ (∃ f g, Forest.ofModel (leavesExpansion "x" "x").model = .ok f
        ∧ Augmentation.applyAll (leavesExpansion "x" "x").model f = .ok g
        ∧ g.map namesInContainers = [[["x", "x"]]])
      ∧ DeclaredModel.ofSources true leavesAtTop = .ok leavesModel
      ∧ ∃ f, Forest.ofModel leavesModel = .ok f ∧ Augmentation.applyAll leavesModel f
        = .error (.augment ⟨"a", none⟩ (.synthetic "bare") "/c" (.nameTaken "x")) := by
  obtain ⟨hdeclareUnder, hunder⟩ :
    DeclaredModel.canDeclare Augmentation.loneLinkage (leavesUnderUses "x" "x") = true ∧ (do
      let f ← Forest.ofModel (leavesExpansion "x" "x").model
      let g ← Augmentation.applyAll (leavesExpansion "x" "x").model f
      return decide (g.map namesInContainers = [[["x", "x"]]]) : Result Bool) = .ok true := by
    decide +kernel
  obtain ⟨hdeclareTop, htop⟩ :
    DeclaredModel.canDeclare Augmentation.loneLinkage leavesAtTop = true ∧ (do
      let f ← Forest.ofModel leavesModel
      return match Augmentation.applyAll leavesModel f with
        | .ok _ => false
        | .error error => decide (error = .augment ⟨"a", none⟩ (.synthetic "bare") "/c"
            (.nameTaken "x")) : Result Bool) = .ok true := by
    decide +kernel
  refine ⟨DeclaredModel.ofSources_eq_ofLinkage (by cbv) rfl (by cbv) hdeclareUnder, ?_,
    DeclaredModel.ofSources_eq_ofLinkage (by cbv) rfl (by cbv) hdeclareTop, ?_⟩
  · obtain ⟨f, hf, h⟩ := Result.bind_eq_ok.1 hunder
    obtain ⟨g, hg, h⟩ := Result.bind_eq_ok.1 h
    exact ⟨f, g, hf, hg, of_decide_eq_true (Except.ok.inj h)⟩
  · obtain ⟨f, hf, h⟩ := Result.bind_eq_ok.1 htop
    refine ⟨f, hf, ?_⟩
    cases happly : Augmentation.applyAll leavesModel f with
    | ok g =>
      rw [happly] at h
      cases h
    | error error =>
      rw [happly] at h
      exact congrArg Except.error (of_decide_eq_true (Except.ok.inj h))

end Expansion

end YangSchema
