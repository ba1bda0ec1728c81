import YangSchema.Proofs.Occurrences

/-!
# Expansion is hygienic

The names in a grouping mean what they mean where the grouping is declared, whatever is declared
around the `uses` that brings it.

* `Processed`: the `uses` and `type` statements whose names are looked up while a module is
  instantiated, each with the scope in which this is done. `Processed.refersTo?_eq` says that the
  scope finds what the place of the statement tells, given the module in which it is seen.
* `copy_eq_of_uses`: two plain `uses` of one grouping bring the same nodes.
-/

namespace YangSchema

open Building (Replays)

namespace Declaration

/-- The kind of definition to which a statement refers. -/
def definitionKind? (d : Declaration) : Option Kind :=
  match d.kind? with
  | some .uses => some .grouping
  | some .type => some .typedef
  | _ => none

theorem isDefinition_of_definitionKind? {d : Declaration} {kind : Kind}
    (h : d.definitionKind? = some kind) : kind.isDefinition = true := by
  unfold definitionKind? at h
  split at h
  · rw [← Option.some.inj h]; rfl
  · rw [← Option.some.inj h]; rfl
  · cases h

/-- Whether a `uses` takes over the content of its grouping as it is: it neither refines nor
augments it, and makes it depend on no condition. -/
def isPlain (d : Declaration) : Bool :=
  [Kind.refine, .augment, .when, .ifFeature].all fun kind => (d.childrenOfKind kind).isEmpty

theorem not_is_of_isPlain {d c : Declaration} (h : d.isPlain = true) {kind : Kind}
    (hkind : kind ∈ [Kind.refine, .augment, .when, .ifFeature]) (hc : c ∈ d.children) :
    ¬ c.is kind = true := by
  have hempty := List.isEmpty_iff.1 (List.all_eq_true.1 h kind hkind)
  exact List.filter_eq_nil_iff.1 hempty c hc

end Declaration

namespace Expansion

/-! ## Statements whose names are looked up -/

/-- A statement is processed in a scope while a module is instantiated: it is copied there, it is a
member type of a `type` statement, or it is the `type` statement of a typedef to which one refers.
-/
inductive Processed (e : Expansion) : DeclaredSource → Scope → Declaration → Prop where
  | copied {k : Manner} {d : Declaration} {t : TypeTable} :
    Copies e k d t → Processed e k.source k.scope d
  | member {s : DeclaredSource} {scope : Scope} {d c : Declaration} :
    Processed e s scope d → d.is .type = true → c ∈ d.children → c.is .type = true →
    Processed e s scope c
  | typedef {s : DeclaredSource} {scope : Scope} {d x : Declaration} {g : Definition} :
    Processed e s scope d → d.is .type = true →
    Definition.resolve e.model s .typedef d.label scope = .ok g →
    EffectiveType.typeStatement g = .ok x → Processed e g.source g.inner x

variable {order : Bool} {sources : List Source} {e : Expansion}

/-- Every name is looked up in a scope that agrees with the place of its statement. -/
theorem Processed.agrees (declared : DeclaredModel.ofSources order sources = .ok e.model)
    {s : DeclaredSource} {scope : Scope} {d : Declaration} (h : Processed e s scope d) :
    s ∈ e.model.sources ∧ s.Holds d ∧ scope.Agrees s d.label.place := by
  induction h with
  | copied hcopies =>
    have hlexical := hcopies.lexical declared
    exact ⟨hlexical.source, hlexical.holds, hlexical.agrees declared⟩
  | @member s scope d c _ htype hc _ ih =>
    obtain ⟨hs, hd, hagrees⟩ := ih
    refine ⟨hs, hd.child hc, ?_⟩
    -- the scope is that of the outermost `type` statement, but those in between declare nothing
    intro kind hkind name
    have hgrammatical :=
      (DeclaredModel.grammatical_of_ofSources declared hs).of_mem hd.mem_subtrees
    rw [Definition.around?_child_of_none declared hs hd hc
      (hgrammatical.among?_of_type hkind htype name)]
    exact hagrees kind hkind name
  | @typedef s scope d x g _ _ hresolve hx ih =>
    obtain ⟨hs, hd, hagrees⟩ := ih
    obtain ⟨hg, hkind⟩ := hagrees.lexical_of_resolve declared hs rfl hresolve
    have hlexical := hg.inner declared rfl hkind (EffectiveType.mem_of_typeStatement hx)
    exact ⟨hlexical.source, hlexical.holds, hlexical.agrees declared⟩

/-- Every name refers to what it refers to at the place of its statement. -/
theorem Processed.resolve_iff (declared : DeclaredModel.ofSources order sources = .ok e.model)
    {s : DeclaredSource} {scope : Scope} {d : Declaration} (h : Processed e s scope d) {kind : Kind}
    (hkind : kind.isDefinition = true) {g : Definition} :
    Definition.resolve e.model s kind d.label scope = .ok g
      ↔ Definition.lexical? e.model kind d.argumentText scope.module s d.label.place = some g := by
  rw [Definition.resolve_eq_ok, (h.agrees declared).2.2.refersTo?_eq hkind]
  rfl

/-! ## Plain uses of one grouping -/

section Plain

variable {k : Manner} {d : Declaration} {g : Definition} {t u : TypeTable} {nodes : List Node}

theorem addConditions_nil (n : Node) : Node.addConditions [] n = n := by
  obtain ⟨label, children⟩ := n
  show Tree.mk { label with conditions := label.conditions ++ [] } children = _
  rw [List.append_nil]

/-- A plain `uses` states no conditions. -/
theorem conditions_of_plain (hplain : d.isPlain = true) (origin : SourceId) :
    Node.conditionsOfDeclarations origin d.children = [] := by
  refine List.filterMap_eq_nil_iff.2 fun c hc => ?_
  have hwhen : ¬ Declaration.is c .when = true :=
    Declaration.not_is_of_isPlain hplain (by decide) hc
  have hifFeature : ¬ Declaration.is c .ifFeature = true :=
    Declaration.not_is_of_isPlain hplain (by decide) hc
  rw [Declaration.is_iff] at hwhen hifFeature
  unfold Node.conditionOf?
  cases hbinding : c.label.binding with
  | builtin kind =>
    rw [hbinding] at hwhen hifFeature
    cases kind <;> first | rfl | exact absurd rfl hwhen | exact absurd rfl hifFeature
  | extension module name => rfl
  | uninterpreted => rfl

/-- A plain `uses` brings what its grouping expands to. -/
theorem ofGrouping_of_plain (huses : IsUses d) (hplain : d.isPlain = true)
    (hresolve : Definition.resolve e.model k.source .grouping d.label k.scope = .ok g)
    (hok : k.copy e d t = .ok (nodes, u)) :
    e.ofGrouping k.depth k.pending ⟨k.source.id, d.label.location, g⟩ t = .ok (nodes, u) := by
  obtain ⟨g', brought, v, refined, hresolve', hbrought, hrefined, haugments⟩ :=
    steps_of_uses huses hok
  obtain rfl := Except.ok.inj (hresolve.symm.trans hresolve')
  have hrefines : d.children.filter (Declaration.is · .refine) = [] :=
    List.filter_eq_nil_iff.2 fun c hc => Declaration.not_is_of_isPlain hplain (by decide) hc
  have hnone : d.children.filter isAugment = [] := by
    refine List.filter_eq_nil_iff.2 fun c hc haugment => ?_
    exact Declaration.not_is_of_isPlain hplain (by decide) hc
      (Declaration.is_iff.2 (of_decide_eq_true haugment))
  -- without refinements, conditions and augments the nodes stay as the grouping brings them
  rw [hrefines, conditions_of_plain hplain, List.map_id'' addConditions_nil] at hrefined
  rw [hnone] at haugments
  obtain ⟨rfl, rfl⟩ := Prod.mk.inj (Except.ok.inj haugments)
  obtain rfl := Except.ok.inj hrefined
  exact hbrought

/-- What a copied `uses` refers to is a grouping in the scope of its own place. -/
theorem Copies.lexical_grouping (declared : DeclaredModel.ofSources order sources = .ok e.model)
    (h : Copies e k d t)
    (hresolve : Definition.resolve e.model k.source .grouping d.label k.scope = .ok g) :
    Lexical e.model g.source g.scope g.statement ∧ Declaration.is g.statement .grouping = true := by
  have hlexical := h.lexical declared
  exact (hlexical.agrees declared).lexical_of_resolve declared hlexical.source rfl hresolve

/-- Two plain `uses` of one grouping bring the same nodes where a module is instantiated. -/
theorem copy_eq_of_uses {k' : Manner} {d' : Declaration} {g' : Definition} {t' : TypeTable}
    {all : List Node} {known : TypeTable}
    (declared : DeclaredModel.ofSources order sources = .ok e.model)
    (hok : e.nodes [] = .ok (all, known)) (hd : Copies e k d t) (hd' : Copies e k' d' t')
    (huses : IsUses d) (huses' : IsUses d') (hplain : d.isPlain = true)
    (hplain' : d'.isPlain = true)
    (hresolve : Definition.resolve e.model k.source .grouping d.label k.scope = .ok g)
    (hresolve' : Definition.resolve e.model k'.source .grouping d'.label k'.scope = .ok g')
    (hsource : g'.source = g.source) (hstatement : g'.statement = g.statement)
    (hmodule : g'.scope.module = g.scope.module) :
    ∃ nodes u u', k.copy e d t = .ok (nodes, u) ∧ k'.copy e d' t' = .ok (nodes, u') := by
  have hsame : g' = g := by
    obtain ⟨hg, _⟩ := hd.lexical_grouping declared hresolve
    obtain ⟨hg', _⟩ := hd'.lexical_grouping declared hresolve'
    exact hg.definition_eq hg' hsource hstatement hmodule
  obtain ⟨nodes, u, hcopy, hu⟩ := hd.succeeds hok
  obtain ⟨nodes', u', hcopy', hu'⟩ := hd'.succeeds hok
  have hbrought := ofGrouping_of_plain huses hplain hresolve hcopy
  have hbrought' := ofGrouping_of_plain huses' hplain' hresolve' hcopy'
  -- both come out again at the end, where no grouping is being expanded
  have hreplays : Replays (e.ofGrouping k.depth k.pending ⟨k.source.id, d.label.location, g⟩)
      (e.ofGrouping (k.depth + k'.depth) [] ⟨k.source.id, d.label.location, g⟩) :=
    ofGrouping_replays (Nat.le_add_right _ _) (List.nil_subset _) rfl
  have hreplays' : Replays (e.ofGrouping k'.depth k'.pending ⟨k'.source.id, d'.label.location, g'⟩)
      (e.ofGrouping (k.depth + k'.depth) [] ⟨k.source.id, d.label.location, g⟩) :=
    ofGrouping_replays (Nat.le_add_left _ _) (List.nil_subset _) hsame.symm
  have heq : nodes = nodes' := hreplays.eq hreplays' hbrought hbrought' hu hu'
  exact ⟨nodes, u, u', hcopy, heq ▸ hcopy'⟩

end Plain

/-! ## Hygiene -/

/-- Expansion is hygienic.

* A name that is looked up while a module is instantiated refers to what its place tells: without
  a prefix, or with that of the own module, to the innermost definition in the statements of its
  source that enclose it below the root, or else to the first one at the top of the family of the
  module in which it is seen; with the prefix of another module, to the first one at the top of the
  family of that module. Where a grouping is used does not matter.
* Where a module is instantiated, two plain `uses` that refer to one grouping, declared in one
  module, bring the same nodes. -/
theorem expansion_is_hygienic {model : DeclaredModel}
    (declared : DeclaredModel.ofSources order sources = .ok model) (m : DeclaredSource) :
    (∀ s scope d, Processed ⟨model, m.id⟩ s scope d →
        ∀ kind, Declaration.definitionKind? d = some kind → ∀ g,
          Definition.resolve model s kind d.label scope = .ok g
            ↔ Definition.lexical? model kind (Declaration.argumentText d) scope.module s
              d.label.place = some g)
      ∧ ∀ tree, ModuleTree.ofModule model m = .ok tree →
          ∀ k d t, Copies ⟨model, m.id⟩ k d t → IsUses d → Declaration.isPlain d = true →
          ∀ k' d' t', Copies ⟨model, m.id⟩ k' d' t' → IsUses d' → Declaration.isPlain d' = true →
          ∀ g, Definition.resolve model k.source .grouping d.label k.scope = .ok g →
          ∀ g', Definition.resolve model k'.source .grouping d'.label k'.scope = .ok g' →
          g'.source = g.source → g'.statement = g.statement → g'.scope.module = g.scope.module →
          ∃ nodes u u', k.copy ⟨model, m.id⟩ d t = .ok (nodes, u)
            ∧ k'.copy ⟨model, m.id⟩ d' t' = .ok (nodes, u') := by
  constructor
  · intro s scope d hprocessed kind hkind g
    exact hprocessed.resolve_iff declared (Declaration.isDefinition_of_definitionKind? hkind)
  · intro tree htree k d t hd huses hplain k' d' t' hd' huses' hplain' g hresolve g' hresolve'
      hsource hstatement hmodule
    obtain ⟨⟨nodes, known⟩, hok, _⟩ := Result.bind_eq_ok.1 htree
    exact copy_eq_of_uses declared hok hd hd' huses huses' hplain hplain' hresolve hresolve'
      hsource hstatement hmodule

/-! ### Examples -/

/-- A module and its submodule declare groupings of one name. The submodule uses that name twice,
once beside a typedef of a name that the grouping of the module uses. -/
def twinGroupings : List Source :=
  [.bareModule "a" [
      .bare "include" "s" [], .bare "typedef" "t" [.bare "type" "string" []],
      .bare "grouping" "g" [.bare "leaf" "m" [.bare "type" "t" []]]],
    ⟨"s", .bare "submodule" "s" [.bare "belongs-to" "a" [.bare "prefix" "a" []],
      .bare "grouping" "g" [.bare "leaf" "l" [.bare "type" "string" []]],
      .bare "container" "c" [.bare "typedef" "t" [.bare "type" "int8" []], .bare "uses" "g" []],
      .bare "container" "d" [.bare "uses" "g" []]]⟩]

/-- How the two are linked. -/
def twinLinkage : Linkage :=
  let a : SourceId := ⟨"a", none⟩
  let s : SourceId := ⟨"s", none⟩
  let l : Location := .synthetic "bare"
  { sources := [
      ⟨⟨a, .module "a", .v1, "a", [], [⟨"s", none, l⟩], l⟩, a, [("a", a)]⟩,
      ⟨⟨s, .submodule "a", .v1, "a", [], [], l⟩, a, [("a", a)]⟩]
    families := [(a, [a, s])]
    graph := ⟨[a, s], [⟨a, s, .includes⟩, ⟨s, a, .belongsTo⟩]⟩ }

/-- Their declared model. -/
def twinModel : DeclaredModel := .ofLinkage twinLinkage twinGroupings

/-- How the module is instantiated. -/
def twinExpansion : Expansion := ⟨twinModel, ⟨"a", none⟩⟩

/-- What is evaluated of the two: they can be declared, and the module is instantiated. -/
theorem evaluated_twinGroupings :
    DeclaredModel.canDeclare twinLinkage twinGroupings = true
      ∧ (twinExpansion.nodes []).toBool = true
      ∧ (twinModel.modules.head?.bind fun m =>
        (ModuleTree.ofModule twinModel m).toOption.map fun _ =>
          decide (m.id = twinExpansion.module)) = some true := by
  decide +kernel

theorem ofSources_twinGroupings : DeclaredModel.ofSources true twinGroupings = .ok twinModel :=
  DeclaredModel.ofSources_eq_ofLinkage (by cbv) rfl (by cbv) evaluated_twinGroupings.1

/-- The `uses` in a container of the submodule, and the grouping to which it refers. -/
structure TwinUses where
  source : DeclaredSource
  container : Declaration
  uses : Declaration
  grouping : Definition

namespace TwinUses

/-- The `uses` in the container of a name. -/
def ofContainer? (name : String) : Option TwinUses :=
  (twinModel.family twinExpansion.module)[1]?.bind fun source =>
    (Definition.among? .container name source.root).bind fun container =>
      (Definition.among? .uses "g" container).bind fun uses =>
        (Definition.resolve twinModel source .grouping uses.label
          ((Scope.top twinExpansion.module).enter source container)).toOption.map fun grouping =>
            ⟨source, container, uses, grouping⟩

/-- The manner in which it is copied. -/
def manner (x : TwinUses) : Manner := (Manner.top twinExpansion x.source).below x.container

/-- It comes to be copied. -/
theorem copies {name : String} {x : TwinUses} (h : ofContainer? name = some x) :
    (∃ t, Copies twinExpansion x.manner x.uses t) ∧ IsUses x.uses
      ∧ Definition.resolve twinModel x.source .grouping x.uses.label x.manner.scope
        = .ok x.grouping := by
  obtain ⟨source, hsource, h⟩ := Option.bind_eq_some_iff.1 h
  obtain ⟨container, hcontainer, h⟩ := Option.bind_eq_some_iff.1 h
  obtain ⟨uses, huses, h⟩ := Option.bind_eq_some_iff.1 h
  obtain ⟨grouping, hgrouping, rfl⟩ := Option.map_eq_some_iff.1 h
  obtain ⟨hmem, hkind, _⟩ := Definition.mem_of_among? hcontainer
  obtain ⟨hu, hukind, _⟩ := Definition.mem_of_among? huses
  have hbinding := Declaration.is_iff.1 hkind
  refine ⟨?_, Declaration.is_iff.1 hukind, Result.eq_ok_of_toOption hgrouping⟩
  have hinstantiated := evaluated_twinGroupings.2.1
  cases hok : twinExpansion.nodes [] with
  | error error => rw [hok] at hinstantiated; cases hinstantiated
  | ok r =>
    have hbody : isBody container.label.binding = true := by rw [hbinding]; rfl
    obtain ⟨t, hcopies⟩ := exists_copies_top hok (List.mem_of_getElem? hsource) hmem
      (Bool.or_eq_true_iff.2 (.inr hbody))
    exact hcopies.exists_under hok (not_isUses_of_binding hbinding (by decide)) hu

/-- The type in the grouping to which it refers, with the leaf that has this type. -/
def typeIn? (x : TwinUses) : Option (Declaration × Declaration) :=
  (Definition.among? .leaf "m" x.grouping.statement).bind fun leaf =>
    (Definition.among? .type "t" leaf).map fun type => (leaf, type)

/-- The type comes to be copied, in the scope of the grouping. -/
theorem processed {name : String} {x : TwinUses} (h : ofContainer? name = some x)
    {leaf type : Declaration} (htype : x.typeIn? = some (leaf, type)) :
    Processed twinExpansion x.grouping.source (x.grouping.inner.enter x.grouping.source leaf) type
      ∧ Declaration.is type .type = true := by
  obtain ⟨⟨t, hcopies⟩, huses, hresolve⟩ := copies h
  obtain ⟨leaf, hleaf, h⟩ := Option.bind_eq_some_iff.1 htype
  obtain ⟨type, htype, heq⟩ := Option.map_eq_some_iff.1 h
  cases heq
  obtain ⟨hl, hlkind, _⟩ := Definition.mem_of_among? hleaf
  obtain ⟨hy, hykind, _⟩ := Definition.mem_of_among? htype
  have hbinding := Declaration.is_iff.1 hlkind
  have hinstantiated := evaluated_twinGroupings.2.1
  cases hok : twinExpansion.nodes [] with
  | error error => rw [hok] at hinstantiated; cases hinstantiated
  | ok r =>
    have hcontent : Node.isGroupingContent leaf.label.binding = true := by rw [hbinding]; rfl
    obtain ⟨depth, u, hcopies⟩ := hcopies.exists_content hok huses hresolve hl hcontent
    obtain ⟨v, hcopies⟩ :=
      hcopies.exists_under hok (not_isUses_of_binding hbinding (by decide)) hy
    exact ⟨.copied hcopies, hykind⟩

/-- What is evaluated of the two `uses`: to what they refer, and what else declares the names. -/
theorem evaluated_both :
    ((ofContainer? "c").bind fun x => (ofContainer? "d").bind fun y => x.typeIn?.bind fun found =>
      ((x.source.enclosing x.uses.label.place ++ [x.source.root]).findSome?
        (Definition.among? .grouping x.uses.argumentText)).map fun _ =>
          decide ((x.grouping.key = y.grouping.key
              ∧ x.grouping.scope.module = y.grouping.scope.module
              ∧ x.grouping.source.id ≠ x.source.id ∧ Declaration.isPlain x.uses = true
              ∧ Declaration.isPlain y.uses = true
              ∧ (Definition.among? .typedef (Declaration.argumentText found.2) x.container).isSome
                = true)
            ∧ Text.splitOnce? ':' x.uses.argumentText = none)) = some true := by
  decide +kernel

/-- Both refer to the grouping of the module, whose type is that of the module; the container of the
first one has a typedef of the same name. -/
theorem exists_both : ∃ x y leaf type, ofContainer? "c" = some x ∧ ofContainer? "d" = some y
    ∧ x.typeIn? = some (leaf, type)
    ∧ x.grouping.key = y.grouping.key ∧ x.grouping.scope.module = y.grouping.scope.module
    ∧ x.grouping.source.id ≠ x.source.id ∧ Declaration.isPlain x.uses = true
    ∧ Declaration.isPlain y.uses = true
    ∧ (Definition.among? .typedef (Declaration.argumentText type) x.container).isSome = true := by
  obtain ⟨x, hx, h⟩ := Option.bind_eq_some_iff.1 evaluated_both
  obtain ⟨y, hy, h⟩ := Option.bind_eq_some_iff.1 h
  obtain ⟨⟨leaf, type⟩, htype, h⟩ := Option.bind_eq_some_iff.1 h
  obtain ⟨_, _, h⟩ := Option.map_eq_some_iff.1 h
  exact ⟨x, y, leaf, type, hx, hy, htype, (of_decide_eq_true h).1⟩

/-- The root of the submodule is the innermost statement around the `uses` that declares a grouping
of its name. -/
theorem exists_own : ∃ x d, ofContainer? "c" = some x
    ∧ (x.source.enclosing x.uses.label.place ++ [x.source.root]).findSome?
      (Definition.among? .grouping x.uses.argumentText) = some d
    ∧ Text.splitOnce? ':' x.uses.argumentText = none ∧ x.grouping.source.id ≠ x.source.id := by
  obtain ⟨x, hx, h⟩ := Option.bind_eq_some_iff.1 evaluated_both
  obtain ⟨y, _, h⟩ := Option.bind_eq_some_iff.1 h
  obtain ⟨found, _, h⟩ := Option.bind_eq_some_iff.1 h
  obtain ⟨d, hd, h⟩ := Option.map_eq_some_iff.1 h
  obtain ⟨⟨_, _, hsource, _⟩, hbare⟩ := of_decide_eq_true h
  exact ⟨x, d, hx, hd, hbare, hsource⟩

end TwinUses

/-- The module is one of those that are instantiated. -/
theorem exists_twinModule : ∃ m tree, m ∈ twinModel.modules ∧ m.id = twinExpansion.module
    ∧ ModuleTree.ofModule twinModel m = .ok tree := by
  obtain ⟨-, -, h⟩ := evaluated_twinGroupings
  obtain ⟨m, hm, h⟩ := Option.bind_eq_some_iff.1 h
  obtain ⟨tree, htree, h⟩ := Option.map_eq_some_iff.1 h
  exact ⟨m, tree, List.mem_of_mem_head? hm, of_decide_eq_true h, Result.eq_ok_of_toOption htree⟩

/-- The root of a submodule does not come before the top of the family: here a `uses` refers to the
grouping of the module, though the root of its own source declares one of that name and is the
innermost statement around it which does so. -/
theorem exists_uses_past_own_root : ∃ m k d t g x,
    DeclaredModel.ofSources true twinGroupings = .ok twinModel ∧ m ∈ twinModel.modules
      ∧ Copies ⟨twinModel, m.id⟩ k d t ∧ IsUses d
      ∧ Text.splitOnce? ':' (Declaration.argumentText d) = none
      ∧ Definition.resolve twinModel k.source .grouping d.label k.scope = .ok g
      ∧ (k.source.enclosing d.label.place ++ [k.source.root]).findSome?
        (Definition.among? .grouping (Declaration.argumentText d)) = some x
      ∧ ¬ (g.source = k.source ∧ g.statement = x) := by
  obtain ⟨m, _, hm, hid, _⟩ := exists_twinModule
  obtain ⟨x, d, hx, hd, hbare, hsource⟩ := TwinUses.exists_own
  obtain ⟨⟨t, hcopies⟩, huses, hresolve⟩ := TwinUses.copies hx
  refine ⟨m, x.manner, x.uses, t, x.grouping, d, ofSources_twinGroupings, hm, ?_, huses, hbare,
    hresolve, hd, ?_⟩
  · rw [hid]
    exact hcopies
  · rintro ⟨heq, _⟩
    exact hsource (congrArg DeclaredSource.id heq)

/-- A type of a grouping is that of its module though a container which uses the grouping declares
another one of its name, and both `uses` bring the same nodes. -/
theorem expansion_is_hygienic_twin : ∃ x y s scope d,
    TwinUses.ofContainer? "c" = some x ∧ TwinUses.ofContainer? "d" = some y
      ∧ Processed twinExpansion s scope d
      ∧ (Definition.among? .typedef (Declaration.argumentText d) x.container).isSome = true
      ∧ (∀ g, Definition.resolve twinModel s .typedef d.label scope = .ok g
        ↔ Definition.lexical? twinModel .typedef (Declaration.argumentText d) scope.module s
          d.label.place = some g)
      ∧ ∃ t t' nodes u u', x.manner.copy twinExpansion x.uses t = .ok (nodes, u)
        ∧ y.manner.copy twinExpansion y.uses t' = .ok (nodes, u') := by
  obtain ⟨x, y, leaf, type, hx, hy, htype, hkey, hmodule, _, hplain, hplain', htypedef⟩ :=
    TwinUses.exists_both
  obtain ⟨m, tree, _, hid, htree⟩ := exists_twinModule
  obtain ⟨⟨t, hcopies⟩, huses, hresolve⟩ := TwinUses.copies hx
  obtain ⟨⟨t', hcopies'⟩, huses', hresolve'⟩ := TwinUses.copies hy
  obtain ⟨hprocessed, hkind⟩ := TwinUses.processed hx htype
  have hygienic := expansion_is_hygienic ofSources_twinGroupings m
  rw [hid] at hygienic
  obtain ⟨hnames, hnodes⟩ := hygienic
  have hdefinitionKind : Declaration.definitionKind? type = some .typedef := by
    unfold Declaration.definitionKind?
    rw [Declaration.kind?_eq_some_iff.2 (Declaration.is_iff.1 hkind)]
  obtain ⟨hg, hgkind⟩ := hcopies.lexical_grouping ofSources_twinGroupings hresolve
  obtain ⟨hg', hgkind'⟩ := hcopies'.lexical_grouping ofSources_twinGroupings hresolve'
  obtain ⟨hsource, hstatement⟩ :=
    (hg'.valid hgkind').eq_of_key_eq ofSources_twinGroupings (hg.valid hgkind) hkey.symm
  obtain ⟨nodes, u, u', hcopy, hcopy'⟩ :=
    hnodes tree htree _ _ t hcopies huses hplain _ _ t' hcopies' huses' hplain' _ hresolve _
      hresolve' hsource hstatement hmodule.symm
  exact ⟨x, y, _, _, type, hx, hy, hprocessed, htypedef,
    hnames _ _ _ hprocessed _ hdefinitionKind, t, t', nodes, u, u', hcopy, hcopy'⟩

end Expansion

end YangSchema
