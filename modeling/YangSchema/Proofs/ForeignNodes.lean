import YangSchema.Proofs.DataTree
import YangSchema.Proofs.Kinship
import YangSchema.Proofs.Namespaces
import YangSchema.Schema

/-!
# Foreign nodes

A node of the data tree of a module is foreign if it lives in the namespace of another module. What
is instantiated lives in the module itself, and a deviation adds no data nodes, so only augments
bring foreign nodes: one that lives elsewhere than its parent is the root of what an augment of its
own module has added (`Forest.ForeignAreGrafted`). That all data nodes below a marked node are
marked holds of parents and children (`Forest.kinship_marks`), wherever they come from: from a
grouping, an `augment` under a `uses` or one at the top of a module.
-/

namespace YangSchema

/-- A copy has all nodes above one that it has. -/
theorem Graft.exists_labelAt?_of_append (γ : Graft) {p q : List Nat} {l : NodeLabel}
    (h : γ.labelAt? (p ++ q) = some l) : ∃ l', γ.labelAt? p = some l' := by
  obtain ⟨a, ha, _⟩ := Option.map_eq_some_iff.1 h
  obtain ⟨x, hx, _⟩ := Option.map_eq_some_iff.1 ha
  rw [Tree.subtree?_append] at hx
  obtain ⟨y, hy, _⟩ := Option.bind_eq_some_iff.1 hx
  refine ⟨_, Option.map_eq_some_iff.2 ⟨y.label, ?_, rfl⟩⟩
  rw [Tree.labelAt?, hy]
  rfl

namespace Forest

variable {order : Bool} {sources : List Source} {model : DeclaredModel} {f g h : Forest}
  {P : Place} {m : SourceId} {i : Nat} {q : List Nat} {l l' : NodeLabel} {γs : List Graft}
  {σ : Place → Place}

/-! ## Marks -/

/-- A schema node below a marked node is marked. -/
def MarkedBelow (l c : NodeLabel) : Prop :=
  l.augmenting = true → c.isSchemaNode = true → c.augmenting = true

/-- Copying into modules keeps schema nodes below marked nodes marked. -/
theorem kinship_marks (model : DeclaredModel) : Kinship model (fun _ => True) MarkedBelow where
  copied _ _ _ _ := trivial
  under hl _ _ := fun hmarked => absurd (hl.symm.trans hmarked) (by decide)
  content _ _ hmarked := fun hl _ => hmarked hl
  declared _ _ _ _ := trivial
  stated := by
    intro module source d l hd _ hname
    have hholds : d.holdsNodes = true := by
      obtain ⟨kind, hkind, hschema⟩ := (Option.any_eq_true _ _).1 hname
      have hdkind : Declaration.kind? d = some kind := hkind
      rw [Declaration.holdsNodes, hdkind]
      exact Kind.holdsNodes_of_isSchemaNode hschema
    exact absurd (hd.symm.trans hholds) (by decide)
  deviated _ _ hc _ := fun _ hname => absurd (hc.symm.trans hname) (by decide)
  marked _ := trivial
  conditions _ _ := trivial
  marked_both _ := fun _ _ => rfl
  conditions_parent _ h := h

theorem Everywhere.related {L : NodeLabel → Prop} {R : NodeLabel → NodeLabel → Prop}
    (h : f.Everywhere (Kin L R)) (hl : f.labelAt? P = some l)
    (hl' : f.labelAt? (P.below [i]) = some l') : R l l' := by
  obtain ⟨⟨a, cs⟩, hn, rfl⟩ := Option.map_eq_some_iff.1 hl
  rw [labelAt?_below hn] at hl'
  obtain ⟨c, hc, hlabel⟩ := Option.bind_eq_some_iff.1 hl'
  cases hlabel
  exact (h.node? hn).root.2 _ (List.mem_map_of_mem (List.mem_of_getElem? hc))

/-- At every stage the data nodes below a marked one are marked. -/
theorem Stage.marked_below (declared : DeclaredModel.ofSources order sources = .ok model)
    (instantiated : ofModel model = .ok f) (hg : Stage model f g) (hP : g.DataNode P l)
    (hq : g.DataNode (P.below q) l') (hmarked : l.augmenting = true) : l'.augmenting = true := by
  have hall := (kinship_marks model).everywhere_stage declared instantiated hg
  induction q using List.reverseRecOn generalizing l' with
  | nil =>
    rw [Place.below_nil] at hq
    cases hP.labelAt?.symm.trans hq.labelAt?
    exact hmarked
  | append_singleton q i ih =>
    rw [← Place.below_append] at hq
    obtain ⟨l'', hl''⟩ := hq.parent (List.append_ne_nil_of_left_ne_nil hP.address_ne_nil q)
    exact hall.related hl''.labelAt? hq.labelAt? (ih hl'') hq.isSchemaNode

/-! ## Foreign nodes -/

/-- What is instantiated lives in the module of its tree. -/
theorem module_of_labelAt? (instantiated : ofModel model = .ok f) (hl : f.labelAt? P = some l) :
    l.module = P.module := by
  obtain ⟨r, hr, hl⟩ := labelAt?_eq_some.1 hl
  obtain ⟨t, ht, rfl⟩ := Option.map_eq_some_iff.1 hr
  have hid := List.find?_some ht
  rw [← of_decide_eq_true hid]
  obtain ⟨x, hx, rfl⟩ := Option.map_eq_some_iff.1 hl
  exact (Tree.all_iff.1
    ((all_module_of_ofModel instantiated t (List.mem_of_find?_eq_some ht)).subtree? hx)).1

/-- The foreign data nodes of `h` are in the copies that the grafts have made of the augments of
`f`; `σ` leads back to where nodes stood when these were made. -/
structure ForeignAreGrafted (f h : Forest) (γs : List Graft) (σ : Place → Place) : Prop where
  /-- The data nodes at the top of a module live in it. -/
  top : ∀ m i l, h.DataNode ⟨m, [i]⟩ l → l.module = m
  /-- A foreign node is marked. -/
  marked : ∀ P l, h.DataNode P l → l.module ≠ P.module → l.augmenting = true
  /-- A node that lives elsewhere than its parent is the root of the copy of some content of an
  augment, which is at the top of the module in which the node lives. -/
  grafted : ∀ P i l l', h.DataNode P l → h.DataNode (P.below [i]) l' → l'.module ≠ l.module →
    ∃ γ ∈ γs, γ.place = σ (P.below [i]) ∧ γ.content ∈ Augmentation.content γ.augment
      ∧ ∃ t ∈ f, t.id = l'.module ∧ γ.augment ∈ t.statements .augment
  /-- All data nodes below a marked one are marked. -/
  inherited : ∀ P q l l', h.DataNode P l → h.DataNode (P.below q) l' → l.augmenting = true →
    l'.augmenting = true

/-- There are no foreign nodes where no augments have been applied. -/
theorem foreignAreGrafted_instantiated
    (declared : DeclaredModel.ofSources order sources = .ok model)
    (instantiated : ofModel model = .ok f) : ForeignAreGrafted f f [] id where
  top _ _ _ h := module_of_labelAt? instantiated h.labelAt?
  marked _ _ h hne := absurd (module_of_labelAt? instantiated h.labelAt?) hne
  grafted P i l l' hP hi hne := by
    rw [module_of_labelAt? instantiated hP.labelAt?,
      module_of_labelAt? instantiated hi.labelAt?] at hne
    exact absurd rfl hne
  inherited _ _ _ _ hP hq := Stage.marked_below declared instantiated .instantiated hP hq

/-- What a graft copies is the content of an augment, and lives in its module. -/
theorem exists_statement_of_graft (instantiated : ofModel model = .ok f)
    (haccounts : Augmentation.Accounts model f g (f.flatMap (·.statements .augment)) γs)
    {γ : Graft} (hγ : γ ∈ γs) : γ.content ∈ Augmentation.content γ.augment
      ∧ ∃ t ∈ f, γ.augment ∈ t.statements .augment ∧ ∀ q l, γ.labelAt? q = some l →
        l.module = t.id ∧ l.augmenting = true := by
  have hmem := haccounts.contributed.mem_iff.1 (List.mem_map_of_mem hγ)
  obtain ⟨a, ha, hcontent⟩ := List.mem_flatMap.1 hmem
  obtain ⟨c, hc, heq⟩ := List.mem_map.1 hcontent
  obtain ⟨rfl, rfl⟩ := Prod.mk.inj heq
  obtain ⟨t, ht, ha⟩ := List.mem_flatMap.1 ha
  refine ⟨hc, t, ht, ha, fun q l hl => ?_⟩
  obtain ⟨l', hl', rfl⟩ := Option.map_eq_some_iff.1 hl
  obtain ⟨x, hx, rfl⟩ := Option.map_eq_some_iff.1 hl'
  have hroot := all_module_of_ofModel instantiated t ht
  have haugment := (Tree.all_iff.1 hroot).2 _ (List.mem_of_mem_filter ha)
  have hcontent := (Tree.all_iff.1 haugment).2 _ (List.mem_of_mem_filter hc)
  exact ⟨(Tree.all_iff.1 (hcontent.subtree? hx)).1, rfl⟩

/-- Behind all augments the foreign nodes are in their copies. -/
theorem foreignAreGrafted_augmented
    (declared : DeclaredModel.ofSources order sources = .ok model)
    (instantiated : ofModel model = .ok f) (haugments : Augmentation.applyAll model f = .ok g)
    (haccounts : Augmentation.Accounts model f g (f.flatMap (·.statements .augment)) γs) :
    ForeignAreGrafted f g γs id where
  top m i l h := by
    rcases haccounts.covered _ _ h.labelAt? with hold | ⟨γ, hγ, q, _, _, hplace⟩
    · exact module_of_labelAt? instantiated hold
    · -- a copy stands below the target of its augment, which is not the root
      obtain ⟨t, j, ht, hγplace⟩ := haccounts.located γ hγ
      have haddress := congrArg (List.length ∘ Place.address) hplace
      simp only [hγplace, Place.below, Function.comp_apply, List.length_append,
        List.length_cons, List.length_nil] at haddress
      exact absurd (List.length_eq_zero_iff.1 (by omega)) (address_ne_nil_of_locate ht)
  marked P l h hne := by
    rcases haccounts.covered _ _ h.labelAt? with hold | ⟨γ, hγ, q, l', hl', rfl⟩
    · exact absurd (module_of_labelAt? instantiated hold) hne
    · cases h.labelAt?.symm.trans (haccounts.copied γ hγ q l' hl')
      obtain ⟨_, t, _, _, hcopy⟩ := exists_statement_of_graft instantiated haccounts hγ
      exact (hcopy q l hl').2
  grafted P i l l' hP hi hne := by
    rcases haccounts.covered _ _ hi.labelAt? with hold | ⟨γ, hγ, q, l'', hl'', hplace⟩
    · obtain ⟨a, ha⟩ := exists_labelAt?_of_below hold
      cases hP.labelAt?.symm.trans (haccounts.keeps _ _ ha)
      rw [module_of_labelAt? instantiated hold, module_of_labelAt? instantiated ha] at hne
      exact absurd rfl hne
    · obtain ⟨hcontent, t, ht, haugment, hcopy⟩ :=
        exists_statement_of_graft instantiated haccounts hγ
      have hcopied := haccounts.copied γ hγ q l'' hl''
      rw [← hplace] at hcopied
      cases hi.labelAt?.symm.trans hcopied
      rcases List.eq_nil_or_concat' q with rfl | ⟨q, j, rfl⟩
      · refine ⟨γ, hγ, ?_, hcontent, t, ht, (hcopy _ _ hl'').1.symm, haugment⟩
        rw [Place.below_nil] at hplace
        exact hplace.symm
      · -- the parent would be in the same copy
        rw [← Place.below_append] at hplace
        obtain ⟨rfl, rfl⟩ := Place.below_singleton_inj hplace
        obtain ⟨a, ha⟩ := γ.exists_labelAt?_of_append hl''
        cases hP.labelAt?.symm.trans (haccounts.copied γ hγ q a ha)
        rw [(hcopy _ _ hl'').1, (hcopy _ _ ha).1] at hne
        exact absurd rfl hne
  inherited _ _ _ _ hP hq := Stage.marked_below declared instantiated
    (Augmentation.stage_of_applyAll (Augmentation.nodup_of_ofModel declared instantiated) haugments)
    hP hq

/-- What is left of the data tree is foreign as it was before. -/
theorem ForeignAreGrafted.leaves {k : Forest} {τ : Place → Place}
    (hg : ForeignAreGrafted f g γs τ) (hσ : LeavesData g k σ) :
    ForeignAreGrafted f k γs (τ ∘ σ) where
  top m i l h := by
    obtain ⟨j, hj⟩ := hσ.child ⟨m, []⟩ i
    have hdata := hσ.dataNode h
    rw [show Place.mk m [i] = (Place.mk m []).below [i] from rfl, hj, hσ.root] at hdata
    exact hg.top m j l hdata
  marked P l h hne := by
    rw [← hσ.module_eq P] at hne
    exact hg.marked (σ P) l (hσ.dataNode h) hne
  grafted P i l l' hP hi hne := by
    obtain ⟨j, hj⟩ := hσ.child P i
    have hdata := hσ.dataNode hi
    rw [hj] at hdata
    obtain ⟨γ, hγ, hplace, hgraft⟩ := hg.grafted (σ P) j l l' (hσ.dataNode hP) hdata hne
    refine ⟨γ, hγ, ?_, hgraft⟩
    rw [hplace, Function.comp_apply, hj]
  inherited P q l l' hP hq hmarked := by
    obtain ⟨q', hq'⟩ := hσ.exists_below P q
    have hdata := hσ.dataNode hq
    rw [hq'] at hdata
    exact hg.inherited (σ P) q' l l' (hσ.dataNode hP) hdata hmarked

end Forest

namespace Schema

open Forest (ForeignAreGrafted LeavesData)

variable {order : Bool} {sources : List Source} {model : DeclaredModel} {schema : Schema}

/-- **Foreign nodes come from augments only.** Where a schema is built, the trees of its modules
are those that all augments and then all deviations make of the instantiated modules. In all of
them, before and after the augments and after the deviations:

* the data nodes at the top of a module live in its namespace;
* a data node that lives in the namespace of another module is marked as brought by an `augment`;
* a data node that lives elsewhere than its parent is the root of the copy of some content of an
  augment, which stands at the top of the module in whose namespace the node lives;
* all data nodes below a marked one are marked.

The grafts account for all that the augments have changed, and what the deviations leave is told
from where it stood before. -/
theorem foreign_nodes_come_from_augments
    (declared : DeclaredModel.ofSources order sources = .ok model)
    (built : ofModel model = .ok schema) :
    ∃ f g k γs σ, Forest.ofModel model = .ok f ∧ Augmentation.applyAll model f = .ok g
      ∧ Deviation.applyAll model g = .ok k ∧ schema = ofForest model k
      ∧ Augmentation.Accounts model f g (f.flatMap (·.statements .augment)) γs
      ∧ LeavesData g k σ
      ∧ ForeignAreGrafted f f [] id ∧ ForeignAreGrafted f g γs id
      ∧ ForeignAreGrafted f k γs σ := by
  obtain ⟨f, g, k, instantiated, haugments, hdeviations, rfl⟩ := ofModel_eq_ok.1 built
  obtain ⟨γs, haccounts⟩ :=
    Augmentation.exists_accounts_of_applyAll declared instantiated haugments
  obtain ⟨σ, hσ⟩ :=
    Deviation.exists_leavesData_of_applyAll declared instantiated haugments hdeviations
  have hg := Forest.foreignAreGrafted_augmented declared instantiated haugments haccounts
  exact ⟨f, g, k, γs, σ, instantiated, haugments, hdeviations, rfl, haccounts, hσ,
    Forest.foreignAreGrafted_instantiated declared instantiated, hg, hg.leaves hσ⟩

/-- A module with two leaves, and one that adds a leaf beside them and takes out the first one. -/
def foreignModules : List Source :=
  [.bareModule "a" [.bare "container" "c" [.bare "leaf" "x" [.bare "type" "string" []]]],
    .bareModule "b" [.bare "import" "a" [.bare "prefix" "p" []],
      .bare "augment" "/p:c" [.bare "leaf" "y" [.bare "type" "string" []]],
      .bare "deviation" "/p:c/p:x" [.bare "deviate" "not-supported" []]],
    .bareModule "e" [.bare "import" "a" [.bare "prefix" "p" []]]]

/-- Their declared model. -/
def foreignModel : DeclaredModel := .ofLinkage Augmentation.augmentingLinkage foreignModules

/-- What is evaluated of them: they can be declared, and what stands in the container in the end. -/
theorem evaluated_foreignModules :
    DeclaredModel.canDeclare Augmentation.augmentingLinkage foreignModules = true
      ∧ (do
        let f ← Forest.ofModel foreignModel
        let g ← Augmentation.applyAll foreignModel f
        let k ← Deviation.applyAll foreignModel g
        let at? := fun p => (k.labelAt? ⟨⟨"a", none⟩, p⟩).map fun l => (l.isSchemaNode, l.module)
        return decide (at? [2] = some (true, ⟨"a", none⟩)
          ∧ at? [2, 0] = some (true, ⟨"b", none⟩)) : Result Bool) = .ok true := by
  decide +kernel

theorem ofSources_foreignModules : DeclaredModel.ofSources true foreignModules = .ok foreignModel :=
  DeclaredModel.ofSources_eq_ofLinkage (by cbv) rfl (by cbv) evaluated_foreignModules.1

/-- The leaf that has been added now stands where the other one was, and is the root of a copy. -/
theorem foreign_nodes_come_from_augments_leaf :
    DeclaredModel.ofSources true foreignModules = .ok foreignModel
    ∧ ∃ f k l l', ∃ γ : Graft, Forest.ofModel foreignModel = .ok f
      ∧ ofModel foreignModel = .ok (ofForest foreignModel k)
      ∧ k.DataNode ⟨⟨"a", none⟩, [2]⟩ l ∧ l.module = ⟨"a", none⟩
      ∧ k.DataNode ⟨⟨"a", none⟩, [2, 0]⟩ l' ∧ l'.module = ⟨"b", none⟩ ∧ l'.augmenting = true
      ∧ γ.content ∈ Augmentation.content γ.augment
      ∧ ∃ t ∈ f, t.id = l'.module ∧ γ.augment ∈ t.statements .augment := by
  obtain ⟨-, h⟩ := evaluated_foreignModules
  obtain ⟨f, instantiated, h⟩ := Result.bind_eq_ok.1 h
  obtain ⟨g, haugments, h⟩ := Result.bind_eq_ok.1 h
  obtain ⟨k, hdeviations, h⟩ := Result.bind_eq_ok.1 h
  obtain ⟨hparent, hchild⟩ := of_decide_eq_true (Except.ok.inj h)
  have built : ofModel foreignModel = .ok (ofForest foreignModel k) :=
    ofModel_eq_ok.2 ⟨f, g, k, instantiated, haugments, hdeviations, rfl⟩
  obtain ⟨f', g', k', γs, σ, hf, hg, hk, _, _, _, _, _, hforeign⟩ :=
    foreign_nodes_come_from_augments ofSources_foreignModules built
  cases instantiated.symm.trans hf
  cases haugments.symm.trans hg
  cases hdeviations.symm.trans hk
  obtain ⟨l, hl, hlabel⟩ := Option.map_eq_some_iff.1 hparent
  obtain ⟨hname, hmodule⟩ := Prod.mk.inj hlabel
  obtain ⟨l', hl', hlabel'⟩ := Option.map_eq_some_iff.1 hchild
  obtain ⟨hname', hmodule'⟩ := Prod.mk.inj hlabel'
  have hdata : k.DataNode ⟨⟨"a", none⟩, [2]⟩ l := .top hl hname
  have hdata' : k.DataNode ((Place.mk ⟨"a", none⟩ [2]).below [0]) l' := .child hdata hl' hname'
  have hne : l'.module ≠ l.module := by
    rw [hmodule, hmodule']
    decide
  obtain ⟨γ, _, _, hcontent, hstatement⟩ := hforeign.grafted _ _ _ _ hdata hdata' hne
  have hmarked := hforeign.marked _ _ hdata' (by rw [hmodule']; decide)
  exact ⟨ofSources_foreignModules, f, k, l, l', γ, instantiated, built, hdata, hmodule, hdata',
    hmodule', hmarked, hcontent, hstatement⟩

end Schema

end YangSchema
