import YangSchema.Proofs.Kinship
import YangSchema.Proofs.Relatives

/-!
# The types that statements carry

A `type` statement gets its type when it is copied, and whether it gets one depends on the statement
below which it stands then. `typesKinship` says that in every other way in which a `type` statement
comes to stand below a node the types are as if it had been copied there. So they are as they should
be in the whole schema, whatever `uses`, augments and deviations have done
(`Schema.types_are_resolved`).
-/

namespace YangSchema

open EffectiveType (Reachable)

variable {order : Bool} {sources : List Source} {model : DeclaredModel} {f g : Forest}

/-! ## Types of copies -/

/-- A node is a copy of a statement that has been resolved to a type, with the names as they are
looked up where the statement is written. -/
def NodeLabel.Carries (model : DeclaredModel) (l : NodeLabel) (ty : EffectiveType) : Prop :=
  ∃ s scope d t u, Lexical model s scope d ∧ Reachable model t
    ∧ l.source = s.id ∧ l.toHead = d.label.toHead ∧ l.binding = d.label.binding
    ∧ EffectiveType.resolve model s scope d t = .ok (ty, u)

/-- Only `type` statements have types of their own, and these are the resolved ones. -/
def NodeLabel.HasOwnType (model : DeclaredModel) (l : NodeLabel) : Prop :=
  ∀ ty, l.type = some ty → l.kind? = some .type ∧ l.Carries model ty

/-- A `type` statement has a type unless it stands below another one. -/
def NodeLabel.TypesBelow (l c : NodeLabel) : Prop :=
  c.kind? = some .type → (c.type.isSome ↔ l.kind? ≠ some .type)

namespace Expansion

variable {e : Expansion} {s : DeclaredSource} {scope : Scope} {isMember : Bool} {d : Declaration}
  {t u : TypeTable} {type : Option EffectiveType}

/-- What gets a type when it is copied. -/
theorem isSome_of_typeOf (h : e.typeOf s scope isMember d t = .ok (type, u)) :
    type.isSome = (d.is .type && !isMember) := by
  unfold typeOf at h
  split at h
  · rename_i htype
    obtain ⟨_, _, _, hreturn⟩ := Building.bind_eq_ok.1 h
    cases hreturn
    exact htype.symm
  · rename_i htype
    cases h
    exact (Bool.eq_false_iff.2 htype).symm

end Expansion

/-- Content of groupings and augments is no `type` statement. -/
theorem Node.not_type_of_isAugmentContent {b : Binding} (h : isAugmentContent b = true) :
    b.kind? ≠ some .type := by
  intro hkind
  rw [Binding.kind?_eq_some_iff] at hkind
  subst hkind
  exact absurd h (by decide)

/-- The types of what is copied into modules are as they should be. -/
theorem typesKinship (declared : DeclaredModel.ofSources order sources = .ok model) :
    Kinship model (NodeLabel.HasOwnType model) NodeLabel.TypesBelow where
  copied {e k d t u type} hmodel h hnot htype ty hty := by
    cases hmodel
    change type = some ty at hty
    subst hty
    have his := Expansion.isSome_of_typeOf htype
    have hkind : d.is .type = true := (Bool.and_eq_true_iff.1 his.symm).1
    refine ⟨Declaration.kind?_eq_some_iff.2 (Declaration.is_iff.1 hkind), ?_⟩
    exact ⟨k.source, k.scope, d, t, u, h.lexical declared, h.reachable, rfl, rfl, rfl,
      (Expansion.typeOf_eq_some htype).2⟩
  under {e k c t u type l} hl hmember htype hkind := by
    have his : c.is .type = true :=
      Declaration.is_iff.2 (Declaration.kind?_eq_some_iff.1 hkind)
    change type.isSome = true ↔ _
    rw [Expansion.isSome_of_typeOf htype, his, hmember, Bool.true_and, Bool.not_eq_true',
      decide_eq_false_iff_not, NodeLabel.kind?, Ne, Binding.kind?_eq_some_iff]
  content hcontent _ _ hkind := absurd hkind (Node.not_type_of_isAugmentContent hcontent)
  declared _ _ _ _ ty hty := nomatch hty
  stated {module source d l} hd hkind := by
    change d.kind? = some .type at hkind
    rw [Declaration.holdsNodes, hkind] at hd
    cases hd
  deviated {l l' c} hl hl' _ h hkind := by
    have hne : l.kind? ≠ some .type := by
      intro htype
      rw [NodeLabel.isSchemaNode, htype] at hl
      cases hl
    refine iff_of_true ((h hkind).2 ?_) hne
    rw [hl']
    decide
  marked h := h
  conditions _ h := h
  marked_both h := h
  conditions_parent _ h := h

/-! ## Roots -/

namespace Deviation

/-- A deviation changes the children of one node. -/
theorem exists_changesAt_of_apply {d : Node} (happly : apply model f d = .ok g) :
    ∃ P cs ds, f.ChangesAt g P cs ds := by
  obtain ⟨t, ht, _⟩ := Result.bind_eq_ok.1 happly
  obtain ⟨T, hT⟩ := exists_kind_of_target ht
  obtain ⟨xs, _, ⟨_, rfl⟩ | ⟨_, cs, _, rfl⟩⟩ := (apply_eq_ok ht hT).1 happly
  · obtain ⟨P, i, cs, _, _, hchanges⟩ := (detaches_remove ht).parent
    exact ⟨P, cs, _, hchanges⟩
  · exact ⟨_, _, cs, changesAt_replace ht cs⟩

end Deviation

namespace Forest

/-- No augment and no deviation changes the root of a module. -/
theorem Stage.labelAt?_root (hg : Stage model f g) {m : SourceId} {l : NodeLabel}
    (hl : f.labelAt? ⟨m, []⟩ = some l) : g.labelAt? ⟨m, []⟩ = some l := by
  induction hg with
  | instantiated => exact hl
  | augment _ _ happly ih =>
    obtain ⟨t, _, hlabels, _⟩ :=
      Augmentation.applyOne_eq_graft (Augmentation.applyOne_eq_ok_iff_attempt.2 happly)
    exact (hlabels _ l).2 (.inl ih)
  | deviation _ _ happly ih =>
    obtain ⟨P, _, _, hchanges⟩ := Deviation.exists_changesAt_of_apply happly
    rw [hchanges.elsewhere ⟨m, []⟩ fun i q h =>
      List.append_ne_nil_of_right_ne_nil P.address (List.cons_ne_nil i q)
        (congrArg Place.address h).symm]
    exact ih

/-- The root of a module is not a `type` statement. -/
theorem Stage.kind_root_ne (declared : DeclaredModel.ofSources order sources = .ok model)
    (instantiated : ofModel model = .ok f) (hg : Stage model f g) {t : ModuleTree} (ht : t ∈ g) :
    t.root.label.kind? ≠ some .type := by
  have distinct := Augmentation.nodup_of_ofModel declared instantiated
  obtain ⟨t', ht', hid⟩ : ∃ t' ∈ f, t'.id = t.id :=
    List.mem_map.1 (hg.map_id ▸ List.mem_map_of_mem ht)
  have hroot {h : Forest} (hdistinct : (h.map (·.id)).Nodup) {u : ModuleTree} (hu : u ∈ h) :
      h.labelAt? ⟨u.id, []⟩ = some u.root.label := by
    rw [labelAt?, node?, root?_of_mem hdistinct hu]
    rfl
  have hkept := hg.labelAt?_root (hroot distinct ht')
  rw [hid, hroot (hg.map_id.symm ▸ distinct) ht] at hkept
  obtain ⟨m, hm, hmodule⟩ := Result.exists_of_mem_mapM instantiated ht'
  obtain ⟨_, _, hreturn⟩ := Result.bind_eq_ok.1 hmodule
  cases hreturn
  rw [Option.some.inj hkept]
  intro hkind
  change m.root.kind? = some .type at hkind
  rcases DeclaredModel.kind_root declared (List.mem_of_mem_filter hm) with h | h <;>
    cases (beq_iff_eq.1 h).symm.trans hkind

end Forest

/-! ## Schemas -/

/-- The types of a node of a schema are as they should be. -/
structure SchemaNode.TypesResolved (model : DeclaredModel) (n : SchemaNode) : Prop where
  /-- A `type` statement stands below another statement, and has a type exactly if that is not a
  `type` statement, too. -/
  own : n.kind? = some .type → n.effectiveType? = n.row.label.type
    ∧ ∃ p, n.parent? = some p ∧ (n.effectiveType?.isSome ↔ p.kind? ≠ some .type)
  /-- Only `type` statements have types of their own, and these are what the statements have been
  resolved to of which the nodes are copies. -/
  resolved : n.row.label.HasOwnType model
  /-- Any other statement has the type that its first `type` statement has. -/
  first : n.kind? ≠ some .type → ∀ c, n.children.find? (·.kind? == some .type) = some c →
    ∃ ty, c.row.label.type = some ty ∧ n.effectiveType? = some ty
  /-- It has none if it has no `type` statement. -/
  without : n.kind? ≠ some .type → (∀ c ∈ n.children, c.kind? ≠ some .type) →
    n.effectiveType? = none

/-- What is known of a node, its children and its parent amounts to that. -/
theorem SchemaNode.typesResolved_of {n : SchemaNode} (hown : n.row.label.HasOwnType model)
    (hchildren : ∀ c ∈ n.children, n.row.label.TypesBelow c.row.label.toNodeLabel)
    (hparent : n.kind? = some .type → ∃ p, n.parent? = some p
      ∧ p.row.label.TypesBelow n.row.label.toNodeLabel) : n.TypesResolved model := by
  have hother (hkind : n.kind? ≠ some .type) : n.row.label.type = none :=
    Option.eq_none_iff_forall_ne_some.2 fun ty hty => hkind (hown ty hty).1
  have hfirst {c : SchemaNode} (hc : n.children.find? (·.kind? == some .type) = some c) :
      c.row.label.type.isSome ↔ n.kind? ≠ some .type := by
    have hkind : c.kind? = some .type := by simpa using List.find?_some hc
    exact hchildren c (List.mem_of_find?_eq_some hc) hkind
  refine ⟨fun hkind => ?_, hown, fun hkind c hc => ?_, fun hkind hnone => ?_⟩
  · have htype : n.effectiveType? = n.row.label.type := by
      rw [effectiveType?]
      cases hty : n.row.label.type with
      | some ty => rfl
      | none =>
        -- the members of a type have none, so there is none to be found below
        exact Option.bind_eq_none_iff.2 fun c hc =>
          Option.not_isSome_iff_eq_none.1 fun hsome => (hfirst hc).1 hsome hkind
    obtain ⟨p, hp, hbelow⟩ := hparent hkind
    refine ⟨htype, p, hp, ?_⟩
    rw [htype]
    exact hbelow hkind
  · obtain ⟨ty, hty⟩ := Option.isSome_iff_exists.1 ((hfirst hc).2 hkind)
    refine ⟨ty, hty, ?_⟩
    rw [effectiveType?, hother hkind, hc, Option.none_or]
    exact hty
  · rw [effectiveType?, hother hkind, Option.none_or, List.find?_eq_none.2, Option.bind_none]
    intro c hc
    simpa using hnone c hc

namespace Schema

variable {schema : Schema}

/-- **Every `type` statement carries its resolved type.** In a schema a `type` statement has a type
unless it is a member of another one, namely that to which the statement of the sources has been
resolved, whether it has been copied where it is written or with a grouping, an `augment` or a
deviation. So every other node with a `type` statement has a type: that of the first one. -/
theorem types_are_resolved (declared : DeclaredModel.ofSources order sources = .ok model)
    (built : ofModel model = .ok schema) :
    ∀ m ∈ schema.modules, ∀ n ∈ m.allNodes, n.TypesResolved model := by
  obtain ⟨f, g, k, instantiated, haugments, hdeviations, rfl⟩ := ofModel_eq_ok.1 built
  have hstage := (Deviation.stage_of_ofModel declared instantiated haugments hdeviations).2
  intro m hm
  have htable := hasTables_ofForest model k m hm
  obtain ⟨t, ht, rfl⟩ := List.mem_map.1 hm
  have hkin {n : SchemaNode} (hn : n ∈ (Module.ofTree model t).allNodes) :=
    Module.holds_of_everywhere rfl
      ((typesKinship declared).everywhere_stage declared instantiated hstage t ht) hn
  intro n hn
  refine SchemaNode.typesResolved_of (hkin hn).1
    (fun c hc => (hkin hn).2 _ (List.mem_map_of_mem hc)) fun hkind => ?_
  cases hparent : n.parent? with
  | none =>
    -- it would be the root, which is a module
    have hid := (SchemaNode.parent?_eq_none_iff htable hn).1 hparent
    obtain ⟨_, hroot, rfl⟩ :=
      Option.map_eq_some_iff.1 ((Module.node?_eq_some_iff htable).2 ⟨hn, hid⟩)
    cases hroot
    exact absurd hkind (hstage.kind_root_ne declared instantiated ht)
  | some p =>
    obtain ⟨hp, hmem⟩ := (SchemaNode.parent?_eq_some_iff htable hn).1 hparent
    exact ⟨p, rfl, (hkin hp).2 _ (List.mem_map_of_mem hmem)⟩

/-- A union with a name, in a grouping that is used, and a deviation from what an augment adds. -/
def typedModule : List Source :=
  [.bareModule "a" [
    .bare "typedef" "t" [.bare "type" "union" [.bare "type" "string" [], .bare "type" "int8" []]],
    .bare "grouping" "g" [.bare "leaf" "x" [.bare "type" "t" []]],
    .bare "container" "c" [.bare "uses" "g" []],
    .bare "augment" "/c" [.bare "leaf-list" "y" [.bare "type" "string" []]],
    .bare "deviation" "/c/y" [.bare "deviate" "replace" [.bare "type" "int8" []]]]]

/-- Its declared model. -/
def typedModel : DeclaredModel := .ofLinkage Augmentation.loneLinkage typedModule

/-- The `type` statements in order, with the built-in types of those that have a type. -/
def typesOf (schema : Schema) : List (Option String × Option String) :=
  schema.modules.flatMap fun m => (m.allNodes.filter fun n => n.kind? == some .type).map
    fun n => (n.row.label.argument, n.effectiveType?.map (·.base.name))

/-- The members of the union have no types, and the deviation has put its own one in place. -/
theorem types_are_resolved_union : ∃ schema, ofModel typedModel = .ok schema
    ∧ (∀ m ∈ schema.modules, ∀ n ∈ m.allNodes, n.TypesResolved typedModel)
    ∧ typesOf schema = [(some "union", some "union"), (some "string", none), (some "int8", none),
      (some "t", some "union"), (some "t", some "union"), (some "int8", some "int8"),
      (some "string", some "string"), (some "int8", some "int8")] := by
  have declared : DeclaredModel.ofSources true typedModule = .ok typedModel :=
    DeclaredModel.ofSources_eq_ofLinkage (by cbv) rfl (by cbv) (by decide +kernel)
  have h : (ofModel typedModel).map typesOf = .ok [(some "union", some "union"),
      (some "string", none), (some "int8", none), (some "t", some "union"),
      (some "t", some "union"), (some "int8", some "int8"), (some "string", some "string"),
      (some "int8", some "int8")] := by
    decide +kernel
  cases built : ofModel typedModel with
  | error _ =>
    rw [built] at h
    cases h
  | ok schema =>
    rw [built] at h
    exact ⟨schema, rfl, types_are_resolved declared built, Except.ok.inj h⟩

end Schema

end YangSchema
