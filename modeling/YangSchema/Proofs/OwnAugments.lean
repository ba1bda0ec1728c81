import YangSchema.Proofs.AugmentFrame
import YangSchema.Proofs.Families
import YangSchema.Proofs.GroupingCycle
import YangSchema.Proofs.Hygiene
import YangSchema.Schema

/-!
# Augments of the own module

The path of an augment whose steps have no prefix, or that of the source in which it is written
(`DeclaredSource.IsOwnPath`), leads into the tree of the module that owns the source
(`Augmentation.Accounts.module_of_own`). This is the latest one whose family holds the source. So
the augments that a module declares, itself or in its submodules, add to its own tree, and to none
else, as long as no later module shares their sources (`Augmentation.own_augments_stay`).

Where a later module does, what the earlier one declares is added to the later one
(`Augmentation.own_augments_leave`).
-/

namespace YangSchema

variable {order : Bool} {sources : List Source} {model : DeclaredModel} {s : DeclaredSource}
  {f g : Forest}

/-! ## Paths -/

/-- No step of a path has a prefix other than that of the source. -/
def DeclaredSource.IsOwnPath (s : DeclaredSource) (path : String) : Prop :=
  ∀ steps, SchemaPath.steps? true path = some steps →
    ∀ step ∈ steps, ∀ p, step.qualifier = some p → p = s.header.ownPrefix

theorem DeclaredSource.isOwnPath_of_bare {path : String}
    (h : ((SchemaPath.steps? true path).getD []).all (·.qualifier.isNone) = true) :
    s.IsOwnPath path := by
  intro steps hsteps step hstep p hp
  rw [hsteps, Option.getD_some, List.all_eq_true] at h
  have hnone := h step hstep
  rw [hp] at hnone
  cases hnone

/-- A step without a prefix, or with that of its source, names the owner of the source. -/
theorem Forest.stepModule?_of_own (declared : DeclaredModel.ofSources order sources = .ok model)
    (hs : s ∈ model.sources) {step : Step}
    (hown : ∀ p, step.qualifier = some p → p = s.header.ownPrefix) :
    stepModule? model s.id step = some s.owner := by
  unfold stepModule?
  rw [DeclaredModel.source?_id declared hs, Option.bind_eq_bind, Option.bind_some]
  cases hq : step.qualifier with
  | none => rfl
  | some p =>
    rw [hown p hq]
    exact DeclaredModel.prefixTarget?_ownPrefix declared hs

/-- A path of own steps leads into the tree of the owner. -/
theorem DeclaredSource.IsOwnPath.module_of_locate
    (declared : DeclaredModel.ofSources order sources = .ok model) (hs : s ∈ model.sources)
    {path : String} (hown : s.IsOwnPath path) {t : Target}
    (ht : Forest.locate model f s.id path = .ok t) : t.module = s.owner := by
  obtain ⟨step, rest, m, r, hsteps, hm, _, _, rfl⟩ := Forest.locate_eq_ok.1 ht
  have hstep := Forest.stepModule?_of_own declared hs (hown _ hsteps step List.mem_cons_self)
  exact Option.some.inj (hm.symm.trans hstep)

namespace Augmentation

variable {as : List Node} {γ : Graft} {γs : List Graft}

/-- What an augment with a path of own steps adds comes to stand in the tree of the owner. -/
theorem Accounts.module_of_own (declared : DeclaredModel.ofSources order sources = .ok model)
    (haccounts : Accounts model f g as γs) (hγ : γ ∈ γs) (hs : s ∈ model.sources)
    (hsource : γ.augment.label.source = s.id)
    (hown : s.IsOwnPath (γ.augment.label.argument.getD "")) : γ.place.module = s.owner := by
  obtain ⟨t, i, ht, hplace⟩ := haccounts.located γ hγ
  rw [hsource] at ht
  rw [hplace]
  exact hown.module_of_locate declared hs ht

end Augmentation

/-! ## The augments of an instantiated module -/

namespace Expansion

variable {e : Expansion} {nodes : List Node} {u : TypeTable} {d : Declaration}

/-- A top-level statement that has neither content of its own nor a type is copied as it is. -/
theorem exists_label_of_nodes (hok : e.nodes [] = .ok (nodes, u))
    (hs : s ∈ e.model.family e.module) (hd : d ∈ s.root.children)
    (hbody : isBody d.label.binding = true) (huses : ¬ IsUses d) (htype : d.is .type = false) :
    ∃ n ∈ nodes, n.label = NodeLabel.ofDeclared e.module s.id false d.label := by
  obtain ⟨parts, _, hparts, hreturn⟩ := Building.bind_eq_ok.1 hok
  cases hreturn
  obtain ⟨part, hpart, _, _, hsource⟩ := Building.exists_mem_of_mapM hparts hs
  obtain ⟨copied, hcopied, rfl⟩ := copyAll_eq_ok.1 hsource
  have hmem : d ∈ s.root.children.filter fun d => s.id = e.module || isBody d.label.binding :=
    List.mem_filter.2 ⟨hd, Bool.or_eq_true_iff.2 (.inr hbody)⟩
  obtain ⟨ns, hns, _, _, hcopy⟩ := Building.exists_mem_of_mapM hcopied hmem
  obtain ⟨type, _, children, hnone, _, rfl⟩ := steps_of_not_uses huses hcopy
  unfold typeOf at hnone
  rw [htype] at hnone
  cases hnone
  refine ⟨_, List.mem_flatten.2 ⟨_, hpart, List.mem_flatten.2 ⟨_, hns, List.mem_cons_self⟩⟩, ?_⟩
  rfl

end Expansion

namespace Augmentation

variable {schema : Schema}

/-- Every augment at the top of a source of the family of a module is one at the top of the tree of
the module. -/
theorem exists_augment_of_declared (instantiated : Forest.ofModel model = .ok f)
    {m : DeclaredSource} (hm : m ∈ model.modules) (hs : s ∈ model.family m.id) {d : Declaration}
    (hd : d ∈ s.root.children) (haugment : d.is .augment = true) :
    ∃ t ∈ f, t.id = m.id ∧ ∃ a ∈ t.statements .augment,
      a.label = NodeLabel.ofDeclared m.id s.id false d.label := by
  have hbinding := Declaration.is_iff.1 haugment
  obtain ⟨t, ht, hmodule⟩ := Result.exists_mem_of_mapM instantiated hm
  obtain ⟨⟨nodes, u⟩, hnodes, hreturn⟩ := Result.bind_eq_ok.1 hmodule
  cases hreturn
  have hbody : Expansion.isBody d.label.binding = true := by rw [hbinding]; rfl
  have htype : d.is .type = false := by
    rw [Bool.eq_false_iff, ne_eq, Declaration.is_iff, hbinding]
    decide
  obtain ⟨a, ha, hlabel⟩ := Expansion.exists_label_of_nodes hnodes hs hd hbody
    (not_isUses_of_binding hbinding (by decide)) htype
  refine ⟨_, ht, rfl, a, List.mem_filter.2 ⟨ha, ?_⟩, hlabel⟩
  unfold Node.is Node.kind?
  rw [hlabel]
  exact haugment

/-- Augments of the own module. What an augment adds that a module declares, itself or in a
submodule, and whose path has no step with a foreign prefix, is added to the tree of the module that
owns its source, and to none else. This is the module itself unless a later one has the source in
its family. -/
theorem own_augments_stay (declared : DeclaredModel.ofSources order sources = .ok model)
    (built : Schema.ofModel model = .ok schema) :
    ∃ f g γs, Forest.ofModel model = .ok f ∧ applyAll model f = .ok g
      ∧ Accounts model f g (f.flatMap (·.statements .augment)) γs
      ∧ ∀ m ∈ model.modules, ∀ s ∈ model.family m.id, ∀ d ∈ s.root.children,
        Declaration.is d .augment = true → s.IsOwnPath (Declaration.argumentText d) →
        ((∀ m' ∈ model.modules, s ∈ model.family m'.id → m'.id.le m.id = true) → s.owner = m.id)
        ∧ ∃ t ∈ f, t.id = m.id ∧ ∃ a ∈ t.statements .augment,
          a.label = NodeLabel.ofDeclared m.id s.id false d.label
          ∧ (∀ c ∈ content a, ∃ γ ∈ γs, γ.augment = a ∧ γ.content = c)
          ∧ ∀ γ ∈ γs, γ.augment.label = a.label → γ.place.module = s.owner := by
  obtain ⟨f, instantiated, built⟩ := Result.bind_eq_ok.1 built
  obtain ⟨g, happly, _⟩ := Result.bind_eq_ok.1 built
  obtain ⟨γs, haccounts⟩ := exists_accounts_of_applyAll declared instantiated happly
  refine ⟨f, g, γs, instantiated, happly, haccounts, ?_⟩
  intro m hm s hs d hd haugment hown
  refine ⟨DeclaredModel.owner_of_latest declared hs, ?_⟩
  obtain ⟨t, ht, hid, a, ha, hlabel⟩ :=
    exists_augment_of_declared instantiated hm hs hd haugment
  refine ⟨t, ht, hid, a, ha, hlabel, fun c hc => ?_, fun γ hγ hsame => ?_⟩
  · have hmem : (a, c) ∈ γs.map fun γ => (γ.augment, γ.content) :=
      haccounts.contributed.mem_iff.2 (List.mem_flatMap.2
        ⟨a, List.mem_flatMap.2 ⟨t, ht, ha⟩, List.mem_map_of_mem hc⟩)
    obtain ⟨γ, hγ, heq⟩ := List.mem_map.1 hmem
    obtain ⟨haugment, hcontent⟩ := Prod.mk.inj heq
    exact ⟨γ, hγ, haugment, hcontent⟩
  · rw [hlabel] at hsame
    refine haccounts.module_of_own declared hγ (DeclaredModel.mem_of_family hs) ?_ ?_
    · rw [hsame]
      rfl
    · rw [hsame]
      exact hown

/-! ### Examples -/

/-- The augment of a path at the top of the second source of the family of a module. -/
def augmentIn? (model : DeclaredModel) (m : DeclaredSource) (path : String) :
    Option (DeclaredSource × Declaration) := do
  let s ← (model.family m.id)[1]?
  let d ← Definition.among? .augment path s.root
  return (s, d)

theorem mem_of_augmentIn? {m : DeclaredSource} {path : String} {d : Declaration}
    (h : augmentIn? model m path = some (s, d)) :
    s ∈ model.family m.id ∧ d ∈ s.root.children ∧ Declaration.is d .augment = true
      ∧ Declaration.argumentText d = path := by
  obtain ⟨s, hs, h⟩ := Option.bind_eq_some_iff.1 h
  obtain ⟨d, hd, h⟩ := Option.bind_eq_some_iff.1 h
  cases h
  obtain ⟨hmem, hkind, hargument⟩ := Definition.mem_of_among? hd
  refine ⟨List.mem_of_getElem? hs, hmem, hkind, ?_⟩
  unfold Declaration.argumentText
  rw [hargument]
  rfl

/-- A submodule that adds to the container of its module. -/
def augmentedOwner : List Source :=
  [.bareModule "a" [.bare "include" "s" [], .bare "container" "c" []],
    ⟨"s", .bare "submodule" "s" [.bare "belongs-to" "a" [.bare "prefix" "a" []],
      .bare "augment" "/c" [.bare "leaf" "x" [.bare "type" "string" []]]]⟩]

/-- Their declared model. -/
def augmentedOwnerModel : DeclaredModel := .ofLinkage Expansion.twinLinkage augmentedOwner

/-- What is evaluated of it: the sources can be declared, and the augment of the submodule, which
has content, is applied. -/
theorem evaluated_augmentedOwner :
    DeclaredModel.canDeclare Expansion.twinLinkage augmentedOwner = true
      ∧ (do
        let _ ← (Schema.ofModel augmentedOwnerModel).toOption
        let m ← augmentedOwnerModel.modules.head?
        let (s, _) ← augmentIn? augmentedOwnerModel m "/c"
        let f ← (Forest.ofModel augmentedOwnerModel).toOption
        return (decide (s.id ≠ m.id ∧ augmentedOwnerModel.modules.length = 1),
          f.all fun t => (t.statements .augment).all fun a => !(content a).isEmpty))
        = some (true, true) := by
  decide +kernel

theorem ofSources_augmentedOwner :
    DeclaredModel.ofSources true augmentedOwner = .ok augmentedOwnerModel :=
  DeclaredModel.ofSources_eq_ofLinkage (by cbv) rfl (by cbv) evaluated_augmentedOwner.1

/-- The leaf of the submodule comes to stand in the tree of the module. -/
theorem own_augments_stay_submodule : ∃ f g γs, ∃ m ∈ augmentedOwnerModel.modules,
    Forest.ofModel augmentedOwnerModel = .ok f ∧ applyAll augmentedOwnerModel f = .ok g
      ∧ Accounts augmentedOwnerModel f g (f.flatMap (·.statements .augment)) γs
      ∧ ∃ γ ∈ γs, γ.augment.label.source ≠ m.id ∧ γ.place.module = m.id := by
  obtain ⟨-, h⟩ := evaluated_augmentedOwner
  obtain ⟨schema, hschema, h⟩ := Option.bind_eq_some_iff.1 h
  obtain ⟨m, hm, h⟩ := Option.bind_eq_some_iff.1 h
  obtain ⟨⟨s, d⟩, haugmentIn, h⟩ := Option.bind_eq_some_iff.1 h
  obtain ⟨f, hf, h⟩ := Option.bind_eq_some_iff.1 h
  obtain ⟨hdecided, hcontent⟩ := Prod.mk.inj (Option.some.inj h)
  obtain ⟨hsource, hsingle⟩ := of_decide_eq_true hdecided
  obtain ⟨hs, hd, haugment, hpath⟩ := mem_of_augmentIn? haugmentIn
  have hm := List.mem_of_mem_head? hm
  obtain ⟨f', g, γs, instantiated, happly, haccounts, hown⟩ :=
    own_augments_stay ofSources_augmentedOwner (Result.eq_ok_of_toOption hschema)
  cases instantiated.symm.trans (Result.eq_ok_of_toOption hf)
  obtain ⟨howner, t, ht, _, a, ha, hlabel, hgrafts, hplaces⟩ :=
    hown m hm s hs d hd haugment (DeclaredSource.isOwnPath_of_bare (by rw [hpath]; decide +kernel))
  have hnonempty : content a ≠ [] := by
    simpa using List.all_eq_true.1 (List.all_eq_true.1 hcontent t ht) a ha
  obtain ⟨c, hc⟩ := List.exists_mem_of_ne_nil _ hnonempty
  obtain ⟨γ, hγ, rfl, _⟩ := hgrafts c hc
  refine ⟨f, g, γs, m, hm, instantiated, happly, haccounts, γ, hγ, ?_, ?_⟩
  · rw [hlabel]
    exact hsource
  · rw [hplaces γ hγ rfl]
    refine howner fun m' hm' _ => ?_
    obtain ⟨x, hx⟩ := List.length_eq_one_iff.1 hsingle
    rw [hx, List.mem_singleton] at hm hm'
    rw [hm, hm']
    exact SourceId.le_refl _

/-- Two revisions of a module, each with a container, and one submodule between them that adds to
the container. -/
def sharedAugment : List Source :=
  [.bareModule "a" [
      .bare "import" "a" [.bare "prefix" "p" [], .bare "revision-date" "2002-01-01" []],
      .bare "include" "s" [], .bare "revision" "2001-01-01" [], .bare "container" "c" []],
    .bareModule "a" [
      .bare "include" "s" [], .bare "revision" "2002-01-01" [], .bare "container" "c" []],
    ⟨"s", .bare "submodule" "s" [.bare "belongs-to" "a" [.bare "prefix" "a" []],
      .bare "augment" "/c" [.bare "leaf" "x" [.bare "type" "string" []]]]⟩]

/-- Their declared model. -/
def sharedAugmentModel : DeclaredModel := .ofLinkage Expansion.sharedLinkage sharedAugment

/-- What is evaluated of it: the sources can be declared, and the augment of the submodule is
applied for both revisions. -/
theorem evaluated_sharedAugment :
    DeclaredModel.canDeclare Expansion.sharedLinkage sharedAugment = true
      ∧ (do
        let _ ← (Schema.ofModel sharedAugmentModel).toOption
        let m ← sharedAugmentModel.modules.head?
        let (s, _) ← augmentIn? sharedAugmentModel m "/c"
        let f ← (Forest.ofModel sharedAugmentModel).toOption
        let g ← (applyAll sharedAugmentModel f).toOption
        return decide (s.owner ≠ m.id
          ∧ g.map (fun t => t.statements .container |>.map fun c => c.children.map nameOf)
            = [[[]], [[(s.owner, "x"), (m.id, "x")]]])) = some true := by
  decide +kernel

theorem ofSources_sharedAugment :
    DeclaredModel.ofSources true sharedAugment = .ok sharedAugmentModel :=
  DeclaredModel.ofSources_eq_ofLinkage (by cbv) rfl (by cbv) evaluated_sharedAugment.1

/-- Where a later module shares a submodule, what the earlier one declares there is added to the
later one: the container of the first revision stays empty, and that of the second one has a leaf of
each revision. -/
theorem own_augments_leave : ∃ m s d f g, ∃ schema,
    DeclaredModel.ofSources true sharedAugment = .ok sharedAugmentModel
      ∧ Schema.ofModel sharedAugmentModel = .ok schema
      ∧ m ∈ sharedAugmentModel.modules ∧ s ∈ sharedAugmentModel.family m.id
      ∧ d ∈ s.root.children ∧ Declaration.is d .augment = true
      ∧ s.IsOwnPath (Declaration.argumentText d) ∧ s.owner ≠ m.id
      ∧ Forest.ofModel sharedAugmentModel = .ok f ∧ applyAll sharedAugmentModel f = .ok g
      ∧ g.map (fun t => t.statements .container |>.map fun c => c.children.map nameOf)
        = [[[]], [[(s.owner, "x"), (m.id, "x")]]] := by
  obtain ⟨-, h⟩ := evaluated_sharedAugment
  obtain ⟨schema, hschema, h⟩ := Option.bind_eq_some_iff.1 h
  obtain ⟨m, hm, h⟩ := Option.bind_eq_some_iff.1 h
  obtain ⟨⟨s, d⟩, haugmentIn, h⟩ := Option.bind_eq_some_iff.1 h
  obtain ⟨f, hf, h⟩ := Option.bind_eq_some_iff.1 h
  obtain ⟨g, hg, h⟩ := Option.bind_eq_some_iff.1 h
  obtain ⟨howner, hnames⟩ := of_decide_eq_true (Option.some.inj h)
  obtain ⟨hs, hd, haugment, hpath⟩ := mem_of_augmentIn? haugmentIn
  exact ⟨m, s, d, f, g, schema, ofSources_sharedAugment, Result.eq_ok_of_toOption hschema,
    List.mem_of_mem_head? hm, hs, hd, haugment,
    DeclaredSource.isOwnPath_of_bare (by rw [hpath]; decide +kernel), howner,
    Result.eq_ok_of_toOption hf, Result.eq_ok_of_toOption hg, hnames⟩

end Augmentation

end YangSchema
