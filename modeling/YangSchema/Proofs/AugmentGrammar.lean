import YangSchema.Proofs.AugmentConfluence
import YangSchema.Proofs.AugmentIndependence
import YangSchema.Proofs.Everywhere

/-!
# Augments and the grammar

What can be augmented and what an augment may add are two lists of kinds, and whether a statement
may have a substatement is a third matter. The lists allow two things that the grammar does not: a
`case` where there is no choice, and an `action` or a `notification` below what has none
(`Kind.isMisplaced`). Nothing else that an augment adds is against the grammar
(`Kind.substatement?_iff_not_isMisplaced`).

So augments keep the grammar exactly where none of them adds one of these to a node that must not
have it (`Augmentation.augments_follow_grammar`), and where one does, nobody notices
(`Augmentation.augment_against_grammar`).
-/

namespace YangSchema

/-! ## Kinds -/

namespace Kind

/-- What an augment can add to a node although this must not have it: a `case` if the node is no
choice, and an `action` or a `notification` if it is neither a container nor a list. -/
def isMisplaced (parent child : Kind) : Bool :=
  match child with
  | .case => parent != .choice
  | .action | .notification => parent != .container && parent != .list
  | _ => false

/-- A node that can be augmented may have all content of augments that is not misplaced. -/
theorem substatement?_iff_not_isMisplaced {parent child : Kind}
    (hparent : parent.isAugmentable = true)
    (hchild : Node.isAugmentContent (.builtin child) = true) (hne : child ≠ .uses) :
    (parent.substatement? child).isSome = true ↔ parent.isMisplaced child = false := by
  have h : ∀ parent child : Kind, (!parent.isAugmentable
      || !Node.isAugmentContent (.builtin child) || child == .uses
      || (parent.substatement? child).isSome == !parent.isMisplaced child) = true :=
    forall_iff.2 (by decide +kernel)
  have hcase := h parent child
  rw [hparent, hchild, beq_false_of_ne hne] at hcase
  simp only [Bool.not_true, Bool.false_or, beq_iff_eq] at hcase
  rw [hcase, Bool.not_eq_true']

end Kind

/-! ## Trees that follow the grammar -/

/-- Whether a statement may have a substatement, as far as both are built in. -/
def Binding.allows (parent child : Binding) : Bool :=
  match parent.kind?, child.kind? with
  | some parent, some child => (parent.substatement? child).isSome
  | _, _ => true

theorem Binding.allows_iff {parent child : Binding} : parent.allows child = true
    ↔ ∀ T C, parent.kind? = some T → child.kind? = some C → (T.substatement? C).isSome = true := by
  unfold allows
  cases parent.kind? <;> cases child.kind? <;> simp

namespace Node

/-- Wherever a built-in statement stands under a built-in statement, this may have it. -/
def FollowsGrammar (n : Node) : Prop :=
  ∀ x ∈ n.subtrees, ∀ c ∈ x.children, x.label.binding.allows c.label.binding = true

instance (n : Node) : Decidable (FollowsGrammar n) :=
  inferInstanceAs (Decidable (∀ x ∈ n.subtrees, ∀ c ∈ x.children,
    x.label.binding.allows c.label.binding = true))

/-- The condition on siblings that this is. -/
def Grammatical (l : NodeLabel) (ls : List NodeLabel) : Prop :=
  ∀ c ∈ ls, l.binding.allows c.binding = true

theorem followsGrammar_iff {n : Node} : FollowsGrammar n ↔ n.Everywhere Grammatical := by
  unfold FollowsGrammar Tree.Everywhere Grammatical
  simp only [List.forall_mem_map]

theorem hereditary_grammatical : Tree.Hereditary Grammatical :=
  fun _ _ _ hsub h c hc => h c (hsub.subset hc)

end Node

/-- All trees follow the grammar. -/
def Forest.FollowsGrammar (f : Forest) : Prop := ∀ t ∈ f, Node.FollowsGrammar t.root

instance (f : Forest) : Decidable f.FollowsGrammar :=
  inferInstanceAs (Decidable (∀ t ∈ f, Node.FollowsGrammar t.root))

theorem Forest.followsGrammar_iff {f : Forest} :
    f.FollowsGrammar ↔ f.Everywhere Node.Grammatical :=
  forall₂_congr fun _ _ => Node.followsGrammar_iff

namespace Augmentation

variable {model : DeclaredModel} {f g : Forest} {a c target x : Node} {xs : List Node}

/-! ## One augment -/

/-- The kinds of a node and of what is added to it, and when this is allowed. -/
structure Joins (target c : Node) (T C : Kind) : Prop where
  target : target.kind? = some T
  content : c.kind? = some C
  allowed_iff : (T.substatement? C).isSome = true ↔ T.isMisplaced C = false

/-- Content with a name is allowed in a node that can be augmented unless it is misplaced there. -/
theorem exists_joins (htarget : (Node.kind? target).any (·.isAugmentable) = true)
    (hcontent : Node.isAugmentContent c.label.binding = true)
    (hne : c.label.binding ≠ .builtin .uses) : ∃ T C, Joins target c T C := by
  obtain ⟨T, hT, haugmentable⟩ := (Option.any_eq_true _ _).1 htarget
  cases hbinding : c.label.binding with
  | builtin C =>
    rw [hbinding] at hcontent hne
    have hC : C ≠ .uses := fun h => hne (by rw [h])
    refine ⟨T, C, hT, ?_, Kind.substatement?_iff_not_isMisplaced haugmentable hcontent hC⟩
    show c.label.binding.kind? = _
    rw [hbinding]
    rfl
  | extension module name =>
    rw [hbinding] at hcontent
    cases hcontent
  | uninterpreted =>
    rw [hbinding] at hcontent
    cases hcontent

/-- Nothing that an augment adds is misplaced at a node. -/
def Fits (a target : Node) : Prop :=
  ∀ c ∈ content a, ∀ T C, target.kind? = some T → c.kind? = some C → T.isMisplaced C = false

theorem Fits.congr {target' : Node} (hlabel : target'.label = target.label) (h : Fits a target) :
    Fits a target' := by
  intro c hc T C hT
  unfold Node.kind? at hT
  rw [hlabel] at hT
  exact h c hc T C hT

/-- Content with a name is no `uses`. -/
theorem ne_uses_of_isSchemaNode (h : Node.isSchemaNode c = true) :
    c.label.binding ≠ .builtin .uses := by
  intro hbinding
  unfold Node.isSchemaNode NodeLabel.isSchemaNode NodeLabel.kind? at h
  rw [hbinding] at h
  cases h

/-- What is added to a node that admits an augment. -/
theorem exists_joins_of_mem_copies (hadmits : Admits a target) (hnamed : Named a)
    (hc : c ∈ copies a) : ∃ T C, Joins target c T C := by
  obtain ⟨n, hn, rfl⟩ := List.mem_map.1 hc
  have hcontent := (List.mem_filter.1 hn).2
  obtain ⟨T, C, hjoins⟩ := exists_joins hadmits.augmentable hcontent
    (ne_uses_of_isSchemaNode (hnamed n hn))
  obtain ⟨label, children⟩ := n
  exact ⟨T, C, hjoins.target, hjoins.content, hjoins.allowed_iff⟩

/-- A node may have what an augment adds to it exactly if none of this is misplaced. -/
theorem grammatical_copies_iff (hadmits : Admits a target) (hnamed : Named a) :
    Node.Grammatical target.label ((copies a).map Tree.label) ↔ Fits a target := by
  unfold Node.Grammatical Fits
  rw [List.forall_mem_map, copies, List.forall_mem_map]
  apply forall₂_congr
  intro c hc
  obtain ⟨T, C, hjoins⟩ := exists_joins hadmits.augmentable (List.mem_filter.1 hc).2
    (ne_uses_of_isSchemaNode (hnamed c hc))
  have hallowed : target.label.binding.allows
      ((Node.markAugmenting c).addConditions (Node.conditions a)).label.binding = true
        ↔ (T.substatement? C).isSome = true := by
    have hC := hjoins.content
    obtain ⟨label, children⟩ := c
    rw [Binding.allows_iff]
    constructor
    · intro h
      exact h T C hjoins.target hC
    · intro h T' C' hT' hC'
      cases hjoins.target.symm.trans hT'
      cases hC.symm.trans hC'
      exact h
  rw [hallowed, hjoins.allowed_iff]
  constructor
  · intro h T' C' hT' hC'
    cases hjoins.target.symm.trans hT'
    cases hjoins.content.symm.trans hC'
    exact h
  · intro h
    exact h T C hjoins.target hjoins.content

theorem unmarked_grammatical : Unmarked Node.Grammatical where
  marked := by
    intro l ls h
    refine List.forall_mem_map.2 fun c hc => ?_
    exact h c hc
  conditions := fun _ _ _ h => h

/-- One augment keeps the grammar exactly if what it adds fits its target. -/
theorem followsGrammar_applyOne_iff (distinct : (f.map (·.id)).Nodup) (hf : f.FollowsGrammar)
    (hnamed : Named a) (hgrammar : a.FollowsGrammar) (ha : applyOne model f a = .ok g) :
    ∃ t, Forest.locate model f a.label.source (a.label.argument.getD "") = .ok t
      ∧ (g.FollowsGrammar ↔ Fits a t.node) := by
  rw [Forest.followsGrammar_iff] at hf
  rw [Node.followsGrammar_iff] at hgrammar
  obtain ⟨t, ht, hadmits, hkeeps⟩ :=
    everywhere_applyOne_iff unmarked_grammatical distinct hf hgrammar ha
  refine ⟨t, ht, ?_⟩
  have hbefore := (hf.node? (Forest.node?_of_locate ht)).root
  rw [Forest.followsGrammar_iff, hkeeps, ← grammatical_copies_iff hadmits hnamed]
  unfold Node.Grammatical at hbefore ⊢
  rw [List.map_append, List.forall_mem_append]
  exact and_iff_right hbefore

/-! ## All augments -/

theorem extends_of_applyInTurn (hrun : applyInTurn model f xs = .ok g) : Forest.Extends f g := by
  obtain ⟨_, haccounts⟩ := (Accounts.nil model f).applyInTurn hrun
  exact haccounts.keeps

/-- The target of an augment that has been applied is found where it was, with the same label. -/
theorem fits_iff_of_extends {t : Target} (hfg : Forest.Extends f g)
    (ht : Forest.locate model f a.label.source (a.label.argument.getD "") = .ok t) :
    (∀ t', Forest.locate model g a.label.source (a.label.argument.getD "") = .ok t' →
      Fits a t'.node) ↔ Fits a t.node := by
  obtain ⟨n, hn⟩ := Forest.locate_of_extends hfg ht
  obtain ⟨n', hn', hextends⟩ := hfg.node? (Forest.node?_of_locate ht)
  cases (Forest.node?_of_locate hn).symm.trans hn'
  rw [hn]
  constructor
  · intro h
    exact (h _ rfl).congr hextends.label.symm
  · rintro h _ heq
    cases heq
    exact h.congr hextends.label

/-- Augments that are applied in turn keep the grammar exactly if all that they add fits. -/
theorem followsGrammar_applyInTurn_iff (distinct : (f.map (·.id)).Nodup) (hf : f.FollowsGrammar)
    (hnamed : ∀ a ∈ xs, Named a) (hgrammar : ∀ a ∈ xs, a.FollowsGrammar)
    (hrun : applyInTurn model f xs = .ok g) :
    g.FollowsGrammar ↔ ∀ a ∈ xs, ∀ t,
      Forest.locate model g a.label.source (a.label.argument.getD "") = .ok t → Fits a t.node := by
  induction xs generalizing f with
  | nil =>
    cases hrun
    exact iff_of_true hf fun _ ha => absurd ha List.not_mem_nil
  | cons a xs ih =>
    have hextends := extends_of_applyInTurn hrun
    obtain ⟨k, ha, hrun⟩ := applyInTurn_cons_eq_ok.1 hrun
    have distinct' : (k.map (·.id)).Nodup := by rwa [map_id_of_applyOne ha]
    obtain ⟨hnameda, hnamedxs⟩ := List.forall_mem_cons.1 hnamed
    obtain ⟨hgrammara, hgrammarxs⟩ := List.forall_mem_cons.1 hgrammar
    obtain ⟨t, ht, hstep⟩ := followsGrammar_applyOne_iff distinct hf hnameda hgrammara ha
    rw [List.forall_mem_cons, fits_iff_of_extends hextends ht, ← hstep]
    constructor
    · intro hg
      -- what is against the grammar stays so
      have hk : k.FollowsGrammar := by
        rw [Forest.followsGrammar_iff] at hg ⊢
        exact hg.of_extends Node.hereditary_grammatical distinct' (extends_of_applyInTurn hrun)
      exact ⟨hk, (ih distinct' hk hnamedxs hgrammarxs hrun).1 hg⟩
    · rintro ⟨hk, hrest⟩
      exact (ih distinct' hk hnamedxs hgrammarxs hrun).2 hrest

end Augmentation

namespace Expansion

variable {e : Expansion} {s : DeclaredSource} {scope : Scope} {d : Declaration} {n target : Node}
  {nodes nodes' : List Node} {t u : TypeTable} {depth : Nat} {pending : List Definition.Pending}

/-! ## Augments under a `uses` -/

/-- What is copied as content of an `augment` is content, but no `uses`. -/
theorem content_of_copyAll {ds : List Declaration}
    (h : copyAll e (e.ofGrouping depth pending) s true false scope Node.isAugmentContent ds t
      = .ok (nodes, u)) (hn : n ∈ nodes) :
    Node.isAugmentContent n.label.binding = true ∧ n.label.binding ≠ .builtin .uses := by
  obtain ⟨d, _, hp, v, w, part, hcopy, hn⟩ := exists_copy_of_mem h hn
  rcases origin_of_copy (fun _ _ _ => isBrought_of_ofGrouping) hcopy hn with
    ⟨_, _, hcontent, hne⟩ | ⟨hnot, horigin⟩
  · refine ⟨?_, hne⟩
    rw [Node.isAugmentContent, hcontent, Bool.true_or]
  · rw [(Prod.mk.inj horigin).2]
    exact ⟨hp, hnot⟩

/-- An `augment` under a `uses` that succeeds adds to one of the nodes what this may have, unless it
is misplaced there. -/
theorem exists_joins_of_augmentOne
    (h : augmentOne e (e.ofGrouping depth pending) s scope nodes d t = .ok (nodes', u)) :
    ∃ address target added, Tree.forestSubtree? nodes address = some target
      ∧ nodes' = Tree.forestReplace (target.addChildren added) nodes address
      ∧ ∀ c ∈ added, ∃ T C, Augmentation.Joins target c T C := by
  obtain ⟨address, target, added, hsub, haugmentable, hadded, rfl⟩ := grown_of_augmentOne h
  refine ⟨address, target, _, hsub, rfl, fun c hc => ?_⟩
  obtain ⟨n, hn, rfl⟩ := List.mem_map.1 hc
  obtain ⟨hcontent, hne⟩ := content_of_copyAll hadded hn
  obtain ⟨T, C, hjoins⟩ := Augmentation.exists_joins haugmentable hcontent hne
  obtain ⟨label, children⟩ := n
  exact ⟨T, C, hjoins.target, hjoins.content, hjoins.allowed_iff⟩

end Expansion

namespace Augmentation

variable {model : DeclaredModel} {f g : Forest} {order : Bool} {sources : List Source}

/-- Augments respect the grammar but for what is misplaced. What an augment at the top of a module,
or an `augment` under a `uses`, adds to its target is allowed there unless it is a `case` and the
target is no choice, or an `action` or a `notification` and the target is neither a container nor a
list. So where the trees of all modules follow the grammar, they do so after all augments exactly if
no augment adds anything of this sort to its target. -/
theorem augments_follow_grammar (declared : DeclaredModel.ofSources order sources = .ok model)
    (instantiated : Forest.ofModel model = .ok f) :
    (∀ a ∈ f.flatMap (·.statements .augment), ∀ target x, splice a target = .ok x →
      target.addChildren (copies a) = x ∧ ∀ c ∈ copies a, ∃ T C, Joins target c T C)
    ∧ (∀ e depth pending s scope nodes d t nodes' u,
      Expansion.augmentOne e (e.ofGrouping depth pending) s scope nodes d t = .ok (nodes', u) →
        ∃ address target added, Tree.forestSubtree? nodes address = some target
          ∧ nodes' = Tree.forestReplace (target.addChildren added) nodes address
          ∧ ∀ c ∈ added, ∃ T C, Joins target c T C)
    ∧ (f.FollowsGrammar → applyAll model f = .ok g →
      (g.FollowsGrammar ↔ ∀ a ∈ f.flatMap (·.statements .augment), ∀ t,
        Forest.locate model g a.label.source (a.label.argument.getD "") = .ok t →
          Fits a t.node)) := by
  have hnamed : ∀ a ∈ f.flatMap (·.statements .augment), Named a := by
    intro a ha c hc
    obtain ⟨t, ht, ha⟩ := List.mem_flatMap.1 ha
    exact (content_of_instantiated instantiated ht ha hc).2
  refine ⟨?_, ?_, ?_⟩
  · intro a ha target x hx
    obtain ⟨hadmits, rfl⟩ := splice_eq_ok.1 hx
    exact ⟨rfl, fun c hc => exists_joins_of_mem_copies hadmits (hnamed a ha) hc⟩
  · intro e depth pending s scope nodes d t nodes' u h
    exact Expansion.exists_joins_of_augmentOne h
  · intro hf happly
    have distinct := nodup_of_ofModel declared instantiated
    obtain ⟨xs, hperm, hrun⟩ := exists_applyInTurn_of_applyAll distinct happly
    have hgrammar : ∀ a ∈ f.flatMap (·.statements .augment), Node.FollowsGrammar a := by
      intro a ha
      exact Node.followsGrammar_iff.2 ((Forest.followsGrammar_iff.1 hf).statements ha)
    rw [followsGrammar_applyInTurn_iff distinct hf (fun a ha => hnamed a (hperm.mem_iff.1 ha))
      (fun a ha => hgrammar a (hperm.mem_iff.1 ha)) hrun]
    exact forall_congr' fun a => imp_congr_left hperm.mem_iff

/-- Three augments that keep the grammar add what fits their targets. -/
theorem augments_follow_grammar_three : ∃ f g, Forest.ofModel augmentingModel = .ok f
    ∧ applyAll augmentingModel f = .ok g ∧ f.FollowsGrammar ∧ g.FollowsGrammar
    ∧ (f.flatMap (·.statements .augment)).length = 3
    ∧ ∀ a ∈ f.flatMap (·.statements .augment), ∀ t,
        Forest.locate augmentingModel g a.label.source (a.label.argument.getD "") = .ok t →
          Fits a t.node := by
  have h : (do
      let f ← Forest.ofModel augmentingModel
      let g ← applyAll augmentingModel f
      return decide (f.FollowsGrammar ∧ g.FollowsGrammar
        ∧ (f.flatMap (·.statements .augment)).length = 3) : Result Bool) = .ok true := by
    decide +kernel
  obtain ⟨f, instantiated, h⟩ := Result.bind_eq_ok.1 h
  obtain ⟨g, happly, h⟩ := Result.bind_eq_ok.1 h
  obtain ⟨hf, hg, hlength⟩ := of_decide_eq_true (Except.ok.inj h)
  obtain ⟨_, _, hkeeps⟩ := augments_follow_grammar ofSources_augmentingModules instantiated
  exact ⟨f, g, instantiated, happly, hf, hg, hlength, (hkeeps hf happly).1 hg⟩

/-- How a module `a` is linked that is the only source. -/
def loneLinkage : Linkage :=
  let a : SourceId := ⟨"a", none⟩
  { sources := [⟨⟨a, .module "a", .v1, "a", [], [], .synthetic "bare"⟩, a, [("a", a)]⟩]
    families := [(a, [a])]
    graph := ⟨[a], []⟩ }

/-- A module that adds a case to a container. -/
def strayCase : List Source :=
  [.bareModule "a" [.bare "container" "c" [],
    .bare "augment" "/c" [.bare "case" "x" [.bare "leaf" "l" [.bare "type" "string" []]]]]]

/-- Its declared model. -/
def strayCaseModel : DeclaredModel := .ofLinkage loneLinkage strayCase

/-- An augment that adds a case to a container is applied, after which the grammar is not followed
any more. -/
theorem augment_against_grammar : DeclaredModel.ofSources true strayCase = .ok strayCaseModel
    ∧ ∃ f g, Forest.ofModel strayCaseModel = .ok f ∧ applyAll strayCaseModel f = .ok g
      ∧ f.FollowsGrammar ∧ ¬ g.FollowsGrammar := by
  obtain ⟨hdeclare, h⟩ : DeclaredModel.canDeclare loneLinkage strayCase = true ∧ (do
        let f ← Forest.ofModel strayCaseModel
        let g ← applyAll strayCaseModel f
        return decide (f.FollowsGrammar ∧ ¬ g.FollowsGrammar) : Result Bool) = .ok true := by
    decide +kernel
  obtain ⟨f, instantiated, h⟩ := Result.bind_eq_ok.1 h
  obtain ⟨g, happly, h⟩ := Result.bind_eq_ok.1 h
  obtain ⟨hf, hg⟩ := of_decide_eq_true (Except.ok.inj h)
  exact ⟨DeclaredModel.ofSources_eq_ofLinkage (by cbv) rfl (by cbv) hdeclare,
    f, g, instantiated, happly, hf, hg⟩

end Augmentation

end YangSchema
