import YangSchema.Proofs.CopiedOrigins
import YangSchema.Proofs.DeviatedProperties

/-!
# The conditions of nodes

The nodes of a schema have the conditions that their origins have, no more and no less.

A module that has been instantiated has the nodes that its sources bring
(`Forest.isExplained_of_ofModel`). An augment at the top of a module adds its body to the node to
which its path leads (`Augmentation.isExplained_applyOne`), whose copies have been explained
wherever they stand, as they have been copied from the sources. A deviation takes nodes out or
changes properties, which have no names (`Deviation.isExplained_apply`). So after all augments every
node has all children that it should have, and after all deviations none but such
(`Schema.conditions_accumulate`).
-/

namespace YangSchema

variable {order : Bool} {sources : List Source} {model : DeclaredModel} {f g k : Forest}
  {t : Target} {whole : Bool}

/-! ## Trees -/

/-- The nodes of a module have the origins that its sources bring, and all below them have those
that they should have. -/
structure ModuleTree.IsExplained (whole : Bool) (model : DeclaredModel) (t : ModuleTree) :
    Prop where
  root : t.root.label.conditions = []
  children : ∃ parts os,
    List.Forall₂ (fun s part => Brings model s (.top t.id) (Expansion.bodyOf t.id s) part)
      (model.family t.id) parts
    ∧ Kept whole os parts.flatten
    ∧ List.Forall₂ (Explains whole model []) os t.root.children

namespace Forest

/-- So it is in all modules. -/
def IsExplained (whole : Bool) (model : DeclaredModel) (f : Forest) : Prop :=
  ∀ t ∈ f, t.IsExplained whole model

theorem isExplained_of_ofModel (declared : DeclaredModel.ofSources order sources = .ok model)
    (instantiated : ofModel model = .ok f) : f.IsExplained true model := by
  intro t ht
  obtain ⟨m, _, hm⟩ := Result.exists_of_mem_mapM instantiated ht
  obtain ⟨⟨nodes, u⟩, hnodes, hreturn⟩ := Result.bind_eq_ok.1 hm
  cases hreturn
  obtain ⟨parts, hparts, hexplains⟩ := Expansion.explains_nodes (e := ⟨model, m.id⟩) declared hnodes
  exact ⟨rfl, parts, parts.flatten, hparts, rfl, hexplains []⟩

namespace IsExplained

theorem toPart (h : f.IsExplained true model) : f.IsExplained false model := by
  intro t ht
  obtain ⟨hroot, parts, os, hparts, hkept, hchildren⟩ := h t ht
  refine ⟨hroot, parts, os, hparts, .of_eq hkept, ?_⟩
  rw [← List.map_id t.root.children]
  exact forall₂_map_right_of_mem hchildren fun c _ _ hoc => hoc.toPart

theorem update {m : SourceId} {r : Node} {change : Node → Node}
    (distinct : (f.map (·.id)).Nodup) (h : f.IsExplained whole model) (hr : f.root? m = some r)
    (hchange : ModuleTree.IsExplained whole model ⟨m, r⟩ →
      ModuleTree.IsExplained whole model ⟨m, change r⟩) :
    (f.update m change).IsExplained whole model := by
  intro t ht
  obtain ⟨u, hu, rfl⟩ := List.mem_map.1 ht
  by_cases hm : u.id = m
  · have hroot := root?_of_mem distinct hu
    rw [hm, hr] at hroot
    cases hroot
    rw [if_pos hm]
    subst hm
    exact hchange (h u hu)
  · rw [if_neg hm]
    exact h u hu

/-- Where a path leads, a node may be put that has all origins that it can have there. -/
theorem replace {source : SourceId} {path : String} {n : Node}
    (distinct : (f.map (·.id)).Nodup) (h : f.IsExplained whole model)
    (ht : locate model f source path = .ok t)
    (hreplaces : ∀ steps above, SchemaPath.steps? true path = some steps →
      Node.namesBelow above t.node = steps.map Step.name →
      ∀ o, Explains whole model above o t.node → Explains whole model above o n) :
    (f.replace t n).IsExplained whole model := by
  obtain ⟨step, steps, m, r, hsteps, _, hr, hfollow, rfl⟩ := locate_eq_ok.1 ht
  have hpasses := passes_of_follow hfollow
  refine h.update distinct hr fun ⟨hroot, parts, os, hparts, hkept, hchildren⟩ => ?_
  rw [hpasses.replace_eq]
  exact ⟨hroot, parts, os, hparts, hkept, Explains.forestReplace hchildren hpasses
    fun above habove => hreplaces _ above hsteps habove⟩

/-- Where a path leads, the node may be taken out where not everything has to be there. -/
theorem remove {source : SourceId} {path : String} (distinct : (f.map (·.id)).Nodup)
    (h : f.IsExplained false model) (ht : locate model f source path = .ok t) :
    (f.remove t).IsExplained false model := by
  obtain ⟨step, steps, m, r, _, _, hr, hfollow, rfl⟩ := locate_eq_ok.1 ht
  refine h.update distinct hr fun ⟨hroot, parts, os, hparts, hkept, hchildren⟩ => ?_
  rcases (passes_of_follow hfollow).exists_parent with
    ⟨i, haddress, _⟩ | ⟨front, q, y, i, hfront, haddress, _⟩
  · -- a node at the top of the module
    obtain ⟨os', hsub, hos'⟩ :=
      exists_sublist_of_forall₂ hchildren (List.eraseIdx_sublist r.children i)
    rw [haddress]
    exact ⟨hroot, parts, os', hparts, hsub.trans hkept, hos'⟩
  · rw [haddress, Tree.remove_concat hfront.subtree?, hfront.replace_eq]
    exact ⟨hroot, parts, os, hparts, hkept, Explains.forestReplace hchildren hfront
      fun above _ o ho => ho.dropChildren hfront.isSchemaNode (List.eraseIdx_sublist _ i)⟩

end IsExplained

end Forest

/-! ## Augments -/

namespace Augmentation

variable {a : Node}

/-- The copies that an augment adds are its body, wherever its path leads. -/
theorem explains_copies (declared : DeclaredModel.ofSources order sources = .ok model)
    (instantiated : Forest.ofModel model = .ok f) (ha : a ∈ f.flatMap (·.statements .augment))
    {steps : List Step} (hsteps : SchemaPath.steps? true (a.label.argument.getD "") = some steps) :
    ∃ os, IsBody model (steps.map Step.name) os
      ∧ ∀ above, List.Forall₂ (Explains true model above) os (copies a) := by
  obtain ⟨tree, htree, ha⟩ := List.mem_flatMap.1 ha
  obtain ⟨nodes, u, hnodes, ha, hbinding⟩ :=
    Forest.exists_nodes_of_statements instantiated htree ha
  -- the content is taken from where it was copied, not from its place below the `augment`: only so
  -- is it known to be explained below its target too
  obtain ⟨s, d, hd, describes, base, hbase, hexplains⟩ :=
    Expansion.explains_statement (e := ⟨model, tree.id⟩) declared hnodes ha (by rw [hbinding]; rfl)
  have hargument : a.label.argument = d.label.argument := congrArg Head.argument describes.head
  have hdbinding : d.label.binding = .builtin .augment := describes.binding.symm.trans hbinding
  rw [hargument] at hsteps
  have hbrings := hbase.filter_content
  refine ⟨_, ⟨s, .top tree.id, d, hd, decide_eq_true hdbinding,
    ⟨true, steps, [], hsteps, rfl, fun _ => rfl⟩, _, hbrings, rfl⟩, fun above => ?_⟩
  have hcontent : List.Forall₂ (Explains true model above)
      (base.filter fun o => Node.isAugmentContent o.binding) (content a) :=
    List.rel_filter (fun o n h => iff_of_eq
      (congrArg (Node.isAugmentContent · = true) h.describes.binding.symm)) (hexplains above)
  have hconditions : Node.conditions a = Carrier.conditions ⟨s.id, d⟩ := by
    unfold Node.conditions
    rw [Explains.filterMap_conditionOf? (hexplains above), describes.source]
    exact hbase.filterMap_conditionOf?
  have hcopies : copies a = (content a).map fun n =>
      (n.addConditions (Carrier.conditions ⟨s.id, d⟩)).markAugmenting := by
    unfold copies
    rw [hconditions]
    exact List.map_congr_left fun ⟨l, cs⟩ _ => rfl
  rw [hcopies]
  exact Explains.mapThroughAugment hbrings.augment_eq_none hcontent

/-- One augment keeps the nodes explained. -/
theorem isExplained_applyOne (declared : DeclaredModel.ofSources order sources = .ok model)
    (instantiated : Forest.ofModel model = .ok f) (ha : a ∈ f.flatMap (·.statements .augment))
    (distinct : (g.map (·.id)).Nodup) (hg : g.IsExplained true model)
    (happly : applyOne model g a = .ok k) : k.IsExplained true model := by
  obtain ⟨t, ht, _, rfl⟩ := exists_replace_of_applyOne happly
  obtain ⟨_, _, _, _, _, _, _, hfollow, _⟩ := Forest.locate_eq_ok.1 ht
  refine hg.replace distinct ht fun steps above hsteps habove o ho => ?_
  obtain ⟨os, hbody, hcopies⟩ := explains_copies declared instantiated ha hsteps
  rw [← habove] at hbody
  exact ho.addChildren (Forest.isSchemaNode_of_follow hfollow) hbody (hcopies _)

theorem isExplained_applyAll (declared : DeclaredModel.ofSources order sources = .ok model)
    (instantiated : Forest.ofModel model = .ok f) (happly : applyAll model f = .ok g) :
    g.IsExplained true model := by
  have distinct := nodup_of_ofModel declared instantiated
  obtain ⟨xs, hperm, hrun⟩ := exists_applyInTurn_of_applyAll distinct happly
  exact applyInTurn_invariant (fun a ha _ _ hdistinct hg hone =>
      isExplained_applyOne declared instantiated (hperm.mem_iff.1 ha) hdistinct hg hone)
    distinct (Forest.isExplained_of_ofModel declared instantiated) hrun

end Augmentation

/-! ## Deviations -/

namespace Deviation

variable {d n property : Node} {T : Kind} {todo : List (Deviate × Node)} {cs ds : List Node}
  {l : NodeLabel} {above : List String} {o : Origin} {deviate : Deviate}

/-- What a deviation states is properties. -/
theorem isProperty_of_deviation (declared : DeclaredModel.ofSources order sources = .ok model)
    (instantiated : Forest.ofModel model = .ok f) (hd : d ∈ f.flatMap (·.statements .deviation))
    (hn : n ∈ Node.childrenOfKind d .deviate) (hproperty : property ∈ n.children) :
    Explains.IsProperty false model property := by
  -- having no name, it is known to be bare from what stands below its `deviate` statement
  have hname := not_isSchemaNode_property
    (followsGrammar_of_instantiated declared instantiated hd) hn hproperty
  obtain ⟨tree, htree, hd⟩ := List.mem_flatMap.1 hd
  obtain ⟨_, _, os, _, _, hchildren⟩ :=
    Forest.isExplained_of_ofModel declared instantiated tree htree
  obtain ⟨_, _, hd⟩ := exists_mem_of_forall₂ hchildren (List.mem_of_mem_filter hd)
  obtain ⟨_, _, _, hchildren⟩ := explains_iff.1 hd
  obtain ⟨_, _, hn⟩ := exists_mem_of_forall₂ hchildren (List.mem_of_mem_filter hn)
  obtain ⟨os, _, ⟨_, _, _, _, _, hbare, _⟩, hchildren⟩ := explains_iff.1 hn
  obtain ⟨x, hx, hproperty⟩ := exists_mem_of_forall₂ hchildren hproperty
  have hnot : x.isSchemaNode = false := hproperty.isSchemaNode ▸ hname
  exact ⟨hname, x, _, hbare x hx hnot, hproperty.toPart⟩

/-- Editing a property of a schema node. -/
theorem Edit.explains (h : Edit T property deviate cs ds)
    (hcs : Explains false model above o ⟨l, cs⟩) (hname : l.isSchemaNode = true)
    (hproperty : Explains.IsProperty false model property) :
    Explains false model above o ⟨l, ds⟩ := by
  -- what is of the kind of a property is one, so no schema node is taken out
  have hkind {K : Kind} (hK : Node.kind? property = some K) {c : Node} (hc : Node.is c K = true) :
      Node.isSchemaNode c = false := by
    have hsame : c.label.kind? = property.label.kind? := (is_iff.1 hc).trans hK.symm
    have hnot := hproperty.1
    unfold Node.isSchemaNode NodeLabel.isSchemaNode at hnot ⊢
    rw [hsame]
    exact hnot
  have hadded := List.forall_mem_singleton.2 hproperty
  cases h with
  | pass => exact hcs
  | add K bound => exact hcs.changeProperties hname (List.Sublist.refl _) rfl hadded
  | replace K _ hK =>
    refine hcs.changeProperties hname List.filter_sublist ?_ hadded
    rw [List.filter_filter]
    refine List.filter_congr fun c _ => ?_
    cases hc : Node.isSchemaNode c with
    | false => rfl
    | true =>
      have hnot : Node.is c K = false := Bool.eq_false_iff.2 fun his => by
        rw [hkind hK his] at hc
        cases hc
      rw [hnot]
      rfl
  | delete K _ hK =>
    have hschema := filter_eraseP_of_disjoint (p := matchesProperty K property)
      (fun c hc => hkind hK (Bool.and_eq_true_iff.1 hc).1) cs
    have hleft : Explains false model above o ⟨l, cs.eraseP (matchesProperty K property) ++ []⟩ :=
      hcs.changeProperties hname List.eraseP_sublist hschema fun c hc => absurd hc List.not_mem_nil
    rw [List.append_nil] at hleft
    exact hleft

theorem Edits.explains (h : Edits T todo cs ds) (hcs : Explains false model above o ⟨l, cs⟩)
    (hname : l.isSchemaNode = true)
    (htodo : ∀ step ∈ todo, Explains.IsProperty false model step.2) :
    Explains false model above o ⟨l, ds⟩ := by
  induction h with
  | nil => exact hcs
  | cons hfirst _ ih =>
    obtain ⟨hproperty, htodo⟩ := List.forall_mem_cons.1 htodo
    exact ih (hfirst.explains hcs hname hproperty) htodo

/-- One deviation leaves explained nodes alone. -/
theorem isExplained_apply (declared : DeclaredModel.ofSources order sources = .ok model)
    (instantiated : Forest.ofModel model = .ok f) (hd : d ∈ f.flatMap (·.statements .deviation))
    (distinct : (g.map (·.id)).Nodup) (hg : g.IsExplained false model)
    (happly : apply model g d = .ok k) : k.IsExplained false model := by
  obtain ⟨⟨m, p, ⟨l, ns⟩⟩, ht, _⟩ := Result.bind_eq_ok.1 happly
  obtain ⟨T, hT⟩ := exists_kind_of_target ht
  have hlocate := target_eq_ok.1 ht
  obtain ⟨xs, hxs, ⟨_, rfl⟩ | ⟨_, cs, hedits, rfl⟩⟩ := (apply_eq_ok ht hT).1 happly
  · exact hg.remove distinct hlocate
  · obtain ⟨_, _, _, _, _, _, _, hfollow, _⟩ := Forest.locate_eq_ok.1 hlocate
    refine hg.replace distinct hlocate fun _ above _ _ o ho =>
      hedits.explains ho (Forest.isSchemaNode_of_follow hfollow) fun step hstep => ?_
    obtain ⟨x, hx, hstep⟩ := List.mem_flatMap.1 hstep
    obtain ⟨property, hproperty, rfl⟩ := List.mem_map.1 hstep
    exact isProperty_of_deviation declared instantiated hd
      (mem_childrenOfKind_of_deviates hxs hx) hproperty

theorem isExplained_applyAll (declared : DeclaredModel.ofSources order sources = .ok model)
    (instantiated : Forest.ofModel model = .ok f)
    (haugments : Augmentation.applyAll model f = .ok g) (happly : applyAll model g = .ok k) :
    k.IsExplained false model := by
  have distinct := Augmentation.nodup_of_ofModel declared instantiated
  have hg := (Augmentation.isExplained_applyAll declared instantiated haugments).toPart
  -- the deviations are those of the instantiated modules
  unfold applyAll at happly
  rw [Augmentation.statements_of_applyAll rfl distinct haugments] at happly
  obtain ⟨xs, _, hrun⟩ := Augmentation.exists_applyInTurn_of_applyAll distinct haugments
  have distinct' : (g.map (·.id)).Nodup := by
    rwa [Augmentation.map_id_of_applyInTurn hrun]
  have hkept : (k.map (·.id)).Nodup ∧ k.IsExplained false model := by
    refine Result.foldlM_invariant_of_mem (P := fun h => (h.map (·.id)).Nodup
      ∧ h.IsExplained false model) ?_ ⟨distinct', hg⟩ happly
    rintro d hd h h' ⟨hdistinct, hh⟩ hstep
    exact ⟨by rwa [map_id_of_apply hstep],
      isExplained_apply declared instantiated hd hdistinct hh hstep⟩
  exact hkept.2

end Deviation

/-! ## Schemas -/

/-- Every node that a module lists, its root apart, has an origin. -/
theorem ModuleTree.IsExplained.exists_describes {tree : ModuleTree}
    (h : tree.IsExplained whole model) : ∀ r ∈ (Module.ofTree model tree).nodes,
      r.id = 0 ∧ r.label.conditions = [] ∨ ∃ o : Origin, o.Describes r.label.toNodeLabel := by
  obtain ⟨hroot, _, os, _, _, hchildren⟩ := h
  have hlabels := (Module.lists_of_nodes_eq (m := Module.ofTree model tree) rfl).labels
  obtain ⟨first, rest, hrows, hid, hlabel⟩ : ∃ first rest,
      (Module.ofTree model tree).nodes = first :: rest ∧ first.id = 0
        ∧ first.label.toNodeLabel = tree.root.label := ⟨_, _, rfl, rfl, rfl⟩
  rw [hrows, List.map_cons, Tree.preorder_eq] at hlabels
  have hrest := (List.cons.inj hlabels).2
  intro r hr
  rcases List.mem_cons.1 (hrows ▸ hr) with rfl | hr
  · refine .inl ⟨hid, ?_⟩
    rw [← hroot, ← hlabel]
  · have hmem : r.label.toNodeLabel ∈ Tree.forestPreorder tree.root.children :=
      hrest ▸ List.mem_map_of_mem hr
    obtain ⟨c, hc, hmem⟩ := Tree.mem_forestPreorder.1 hmem
    obtain ⟨_, _, hoc⟩ := exists_mem_of_forall₂ hchildren hc
    exact .inr (hoc.exists_describes _ hmem)

namespace Schema

variable {schema : Schema}

/-- **Conditions accumulate exactly.** In a schema every node has the origin that it should have:
its conditions are those of the `uses` that have brought it, from the innermost to the outermost
one, and then those of the `augment` to whose body it belongs. What has been brought by none of them
has no conditions. Before deviations every node has all children that its statement brings, each
once and in order, and behind them the bodies of augments whose paths lead to it; deviations take
some of them out. -/
theorem conditions_accumulate (declared : DeclaredModel.ofSources order sources = .ok model)
    (built : ofModel model = .ok schema) : ∃ f g k,
      Forest.ofModel model = .ok f ∧ Augmentation.applyAll model f = .ok g
      ∧ Deviation.applyAll model g = .ok k ∧ schema = ofForest model k
      ∧ g.IsExplained true model ∧ k.IsExplained false model
      ∧ ∀ m ∈ schema.modules, ∀ r ∈ m.nodes,
        r.id = 0 ∧ r.label.conditions = [] ∨ ∃ o : Origin, o.Describes r.label.toNodeLabel := by
  obtain ⟨f, hf, built⟩ := Result.bind_eq_ok.1 built
  obtain ⟨g, hg, built⟩ := Result.bind_eq_ok.1 built
  obtain ⟨k, hk, hreturn⟩ := Result.bind_eq_ok.1 built
  cases hreturn
  have hexplained := Deviation.isExplained_applyAll declared hf hg hk
  refine ⟨f, g, k, hf, hg, hk, rfl, Augmentation.isExplained_applyAll declared hf hg, hexplained,
    fun m hm => ?_⟩
  obtain ⟨tree, htree, rfl⟩ := List.mem_map.1 hm
  exact (hexplained tree htree).exists_describes

/-- A `uses` in the grouping of another one, an `augment` below a `uses` and one at the top with a
`uses` in their bodies, and a deviation that takes a node out. All of them state conditions. -/
def conditionalModule : List Source :=
  [.bareModule "a" [
    .bare "grouping" "h" [.bare "container" "c" [], .bare "container" "d" []],
    .bare "grouping" "g" [.bare "uses" "h" [.bare "when" "1" []], .bare "container" "e" []],
    .bare "grouping" "k" [.bare "container" "x" []],
    .bare "container" "top" [.bare "uses" "g" [.bare "when" "2" [], .bare "if-feature" "f" [],
      .bare "augment" "c" [.bare "when" "3" [], .bare "uses" "k" [.bare "when" "4" []]]]],
    .bare "augment" "/top" [.bare "when" "5" [], .bare "uses" "k" [.bare "when" "6" []],
      .bare "container" "y" []],
    .bare "deviation" "/top/d" [.bare "deviate" "not-supported" []]]]

/-- Its declared model. -/
def conditionalModel : DeclaredModel := .ofLinkage Augmentation.loneLinkage conditionalModule

/-- The nodes with conditions in order, with the expressions of these. -/
def conditionals (f : Forest) : List (String × List String) :=
  (f.flatMap (·.root.preorder)).filterMap fun l =>
    if l.conditions = [] then none else some (l.schemaName, l.conditions.map (·.expression))

/-- The nodes below the grouping `g` and below the `augment` at the top are there as well. -/
theorem conditions_accumulate_nested : ∃ schema f g k, ofModel conditionalModel = .ok schema
    ∧ Forest.ofModel conditionalModel = .ok f ∧ Augmentation.applyAll conditionalModel f = .ok g
    ∧ Deviation.applyAll conditionalModel g = .ok k ∧ schema = ofForest conditionalModel k
    ∧ g.IsExplained true conditionalModel ∧ k.IsExplained false conditionalModel
    ∧ conditionals k = [("c", ["1"]), ("d", ["1"]), ("c", ["1", "2", "f"]), ("x", ["4", "3"]),
      ("e", ["2", "f"]), ("x", ["6", "5"]), ("y", ["5"]), ("x", ["6"])] := by
  have declared : DeclaredModel.ofSources true conditionalModule = .ok conditionalModel :=
    DeclaredModel.ofSources_eq_ofLinkage (by cbv) rfl (by cbv) (by decide +kernel)
  have h : (do
      let f ← Forest.ofModel conditionalModel
      let g ← Augmentation.applyAll conditionalModel f
      let k ← Deviation.applyAll conditionalModel g
      return conditionals k : Result (List (String × List String)))
      = .ok [("c", ["1"]), ("d", ["1"]), ("c", ["1", "2", "f"]), ("x", ["4", "3"]),
        ("e", ["2", "f"]), ("x", ["6", "5"]), ("y", ["5"]), ("x", ["6"])] := by
    decide +kernel
  obtain ⟨f, hf, h⟩ := Result.bind_eq_ok.1 h
  obtain ⟨g, hg, h⟩ := Result.bind_eq_ok.1 h
  obtain ⟨k, hk, h⟩ := Result.bind_eq_ok.1 h
  have built : ofModel conditionalModel = .ok (ofForest conditionalModel k) :=
    Result.bind_eq_ok.2 ⟨f, hf, Result.bind_eq_ok.2 ⟨g, hg, Result.bind_eq_ok.2 ⟨k, hk, rfl⟩⟩⟩
  obtain ⟨f', g', k', hf', hg', hk', hschema, hwhole, hpart, _⟩ :=
    conditions_accumulate declared built
  cases hf.symm.trans hf'
  cases hg.symm.trans hg'
  cases hk.symm.trans hk'
  exact ⟨_, f, g, k, built, hf, hg, hk, hschema, hwhole, hpart, Except.ok.inj h⟩

end Schema

end YangSchema
