import Mathlib.Logic.Relation
import YangSchema.Proofs.Pending
import YangSchema.Proofs.Sites

/-!
# Cycles of groupings

A grouping *refers* to the groupings that the `uses` statements in its content name (`Refers`). A
grouping is taken here with the scope in which it is declared: a submodule may be in the families of
several modules, and what its groupings refer to depends on the family.

* `groupingWith_eq`: the expansion never uses up its depth. Before it could, every grouping of the
  model is being expanded, and then the next one is found to be so.
* `Expanded.step`: a grouping that is expanded has all groupings expanded to which it refers, while
  it is being expanded itself. So what has been expanded lies on no cycle
  (`Expanded.key_ne_of_transGen`).
* `isCycle_of_ofGrouping_error`: what a reported cycle names are groupings each of which refers to
  the next one, and the last of which is the first.
-/

namespace YangSchema

open Relation

namespace Expansion

open Definition (Stacked)

/-! ## Referring to groupings -/

/-- A `uses` in the content of the grouping `g`, in the scope in which it stands there, refers to
the grouping `h`. -/
def Refers (model : DeclaredModel) (g h : Definition) : Prop :=
  ∃ c ∈ g.statement.children, Node.isGroupingContent c.label.binding = true
    ∧ ∃ scope u, Within g.source g.inner c scope u ∧ IsUses u
      ∧ Definition.resolve model g.source .grouping u.label scope = .ok h

/-- Two definitions are one and the same statement. -/
def SameStatement (g h : Definition) : Prop := h.source = g.source ∧ h.statement = g.statement

/-- A grouping is declared somewhere in the family of a module. -/
structure DeclaredIn (model : DeclaredModel) (module : SourceId) (g : Definition) : Prop where
  family : g.source ∈ model.family module
  grouping : g.statement.label.binding = .builtin .grouping
  stands : ∃ c ∈ g.source.root.children, Within g.source (.top module) c g.scope g.statement

/-- Names are those of groupings each of which refers to the next one, and the last of which is the
first one again. -/
def IsCycle (model : DeclaredModel) (names : List String) : Prop :=
  ∃ first middle last, names = (first :: (middle ++ [last])).map Definition.qualifiedName
    ∧ (first :: (middle ++ [last])).IsChain (Refers model) ∧ SameStatement first last

variable {model : DeclaredModel} {e : Expansion} {g h : Definition}
  {pending : List Definition.Pending}

theorem valid_of_refers (hg : g.Valid model .grouping) (href : Refers model g h) :
    h.Valid model .grouping := by
  obtain ⟨c, hc, _, scope, u, hwithin, _, hresolve⟩ := href
  have hc' := Tree.child_mem_subtrees hg.statement hc
  exact Definition.valid_of_resolve (hwithin.scope_valid hg.source hc' hg.inner) hresolve

/-! ## The depth is enough -/

/-- The expansion of groupings that does what `deeper` says when its depth is used up. -/
def groupingWith (e : Expansion) (deeper : List Definition.Pending → Site → Building (List Node)) :
    (depth : Nat) → (pending : List Definition.Pending) → Site → Building (List Node)
  | 0, pending, site => deeper pending site
  | depth + 1, pending, site =>
    if site.definition.isPending pending then throw (cycleError pending site)
    else
      copyAll e (groupingWith e deeper depth (pending ++ [entry site.definition]))
        site.definition.source true false site.definition.inner Node.isGroupingContent
        site.definition.statement.children

/-- The nodes of a module and its submodules, with `groupingWith` in place of the expansion. -/
def nodesWith (e : Expansion) (deeper : List Definition.Pending → Site → Building (List Node))
    (depth : Nat) : Building (List Node) := do
  let parts ← (e.model.family e.module).mapM fun s =>
    copyAll e (groupingWith e deeper depth []) s false false (.top e.module)
      (fun b => s.id = e.module || isBody b) s.root.children
  return parts.flatten

/-- What is done when the depth is used up does not matter: a grouping that is met then is being
expanded already. -/
theorem groupingWith_eq (deeper : List Definition.Pending → Site → Building (List Node))
    {depth depth' : Nat} (hp : Stacked e.model .grouping pending)
    (hdepth : e.model.countOfKind .grouping < depth + pending.length)
    (hdepth' : e.model.countOfKind .grouping ≤ depth' + pending.length) {site : Site}
    (hsite : site.definition.Valid e.model .grouping) :
    groupingWith e deeper depth pending site = e.ofGrouping depth' pending site := by
  have hlen := hp.length_le
  induction depth' generalizing depth pending site with
  | zero =>
    have hpending := hp.isPending_of_full hsite (by omega)
    -- nothing is left to enter, so as many groupings are pending as there are
    obtain ⟨n, rfl⟩ : ∃ n, depth = n + 1 := ⟨depth - 1, by omega⟩
    rw [groupingWith, if_pos hpending, ofGrouping_of_pending hpending]
  | succ depth' ih =>
    obtain ⟨n, rfl⟩ : ∃ n, depth = n + 1 := ⟨depth - 1, by omega⟩
    by_cases hpending : site.definition.isPending pending = true
    · rw [groupingWith, if_pos hpending, ofGrouping_of_pending hpending]
    · rw [groupingWith, if_neg hpending, ofGrouping_succ hpending]
      have hpush := hp.push hsite hpending
      have hlength : (pending ++ [entry site.definition]).length = pending.length + 1 :=
        List.length_append
      refine copyAll_congr fun c hc => ?_
      refine copy_congr (fun id location d hd => ?_) hsite.source
        (Tree.child_mem_subtrees hsite.statement hc) hsite.inner
      exact ih hpush (by omega) (by omega) hd hpush.length_le

/-- A module is instantiated alike whatever is done when the depth is used up. -/
theorem nodesWith_eq (e : Expansion)
    (deeper : List Definition.Pending → Site → Building (List Node)) {depth : Nat}
    (hdepth : e.model.countOfKind .grouping < depth) : nodesWith e deeper depth = e.nodes := by
  unfold nodesWith nodes
  rw [Building.mapM_congr]
  intro s hs
  have hsource := DeclaredModel.mem_of_family hs
  refine copyAll_congr fun c hc => ?_
  refine copy_congr (fun id location d hd => ?_) hsource
    (Tree.child_mem_subtrees (Tree.mem_subtrees_self _) hc) (Scope.valid_top _)
  exact groupingWith_eq deeper .nil hdepth (Nat.le_refl _) hd

/-! ## What has been expanded lies on no cycle -/

/-- The grouping `g` has been expanded at some time while the groupings `pending` were. -/
def Expanded (e : Expansion) (pending : List Definition.Pending) (g : Definition) : Prop :=
  ∃ depth site t r, site.definition = g ∧ e.ofGrouping depth pending site t = .ok r

namespace Expanded

theorem not_isPending (hx : Expanded e pending g) : ¬ g.isPending pending = true := by
  obtain ⟨depth, site, t, r, rfl, hok⟩ := hx
  obtain ⟨_, _, hnot, _⟩ := steps_of_ofGrouping hok
  exact hnot

/-- While a grouping is expanded, so are those to which it refers. -/
theorem step {order : Bool} {sources : List Source}
    (declared : DeclaredModel.ofSources order sources = .ok e.model) (hx : Expanded e pending g)
    (hg : g.Valid e.model .grouping) (href : Refers e.model g h) :
    Expanded e (pending ++ [entry g]) h := by
  obtain ⟨_, site, t, r, rfl, hok⟩ := hx
  obtain ⟨c, hc, hcontent, scope, u, hwithin, hu, hresolve⟩ := href
  obtain ⟨depth, rfl, _, hok⟩ := steps_of_ofGrouping hok
  obtain ⟨t₁, _, hok⟩ := exists_copy_ok hok hc hcontent
  have hgrammatical := (DeclaredModel.grammatical_of_ofSources declared hg.source).of_mem
    (Tree.child_mem_subtrees hg.statement hc)
  obtain ⟨definition, t₂, r₂, hfound, hexpanded⟩ :=
    expanded_of_copy_ok hgrammatical hok hwithin hu
  have heq : definition = h := Except.ok.inj (hfound.symm.trans hresolve)
  exact ⟨depth, _, t₂, r₂, heq, hexpanded⟩

/-- While a grouping is expanded, so are those to which references lead from it. -/
theorem reaches {order : Bool} {sources : List Source}
    (declared : DeclaredModel.ofSources order sources = .ok e.model) (hx : Expanded e pending g)
    (hg : g.Valid e.model .grouping) (hpath : ReflTransGen (Refers e.model) g h) :
    h.Valid e.model .grouping ∧ ∃ pending', pending ⊆ pending' ∧ Expanded e pending' h := by
  induction hpath with
  | refl => exact ⟨hg, pending, List.Subset.refl _, hx⟩
  | tail _ href ih =>
    obtain ⟨hvalid, pending', hsub, hexpanded⟩ := ih
    exact ⟨valid_of_refers hvalid href, _, List.Subset.trans hsub (List.subset_append_left _ _),
      hexpanded.step declared hvalid href⟩

/-- From a grouping that has been expanded no references lead back to its statement. -/
theorem key_ne_of_transGen {order : Bool} {sources : List Source}
    (declared : DeclaredModel.ofSources order sources = .ok e.model) (hx : Expanded e pending g)
    (hg : g.Valid e.model .grouping) (hpath : TransGen (Refers e.model) g h) : h.key ≠ g.key := by
  obtain ⟨x, href, hpath⟩ := TransGen.head'_iff.1 hpath
  obtain ⟨_, pending', hsub, hexpanded⟩ :=
    (hx.step declared hg href).reaches declared (valid_of_refers hg href) hpath
  intro hkey
  have hmem : entry g ∈ pending' := hsub (List.mem_append_right _ List.mem_cons_self)
  exact hexpanded.not_isPending
    (Definition.isPending_iff.2 (hkey ▸ List.mem_map_of_mem hmem))

end Expanded

/-- The groupings to which a declared one refers are expanded when its module is instantiated. -/
theorem expanded_of_nodes_ok {order : Bool} {sources : List Source}
    (declared : DeclaredModel.ofSources order sources = .ok e.model) {t : TypeTable}
    {r : List Node × TypeTable} (hok : e.nodes t = .ok r) (hg : DeclaredIn e.model e.module g)
    (href : Refers e.model g h) : Expanded e [] h := by
  obtain ⟨hfamily, hkind, d, hd, hstands⟩ := hg
  obtain ⟨c, hc, _, scope, u, hwithin, hu, hresolve⟩ := href
  have hgrammatical : Declaration.Grammatical d :=
    (DeclaredModel.grammatical_of_ofSources declared (DeclaredModel.mem_of_family hfamily)).child hd
  have hgrouping : ¬ IsUses g.statement := not_isUses_of_binding hkind (by decide)
  -- the `uses` stands in the grouping and so in the top-level statement `d`
  have hbelow : Within g.source (.top e.module) d scope u := by
    refine (hstands.child hc).trans ?_
    rwa [Scope.inside_of_not_uses hgrouping]
  have hbody : isBody d.label.binding = true := by
    have hholds := holdsUses_of_within hgrammatical hbelow
      (Declaration.holdsUses_of_binding hu rfl)
    obtain ⟨kind, hdkind, hkindHolds⟩ := Declaration.exists_kind_of_holdsUses hholds
    rw [Declaration.kind?_eq_some_iff.1 hdkind]
    exact decide_eq_true (Kind.body_of_holdsUses hkindHolds)
  obtain ⟨parts, t₁, hok, _⟩ := Building.bind_eq_ok.1 hok
  obtain ⟨t₂, hcomes⟩ := Building.exists_comes hok hfamily
  obtain ⟨_, _, _, _, hok, _⟩ := hcomes.of_ok hok
  obtain ⟨t₃, _, hok⟩ := exists_copy_ok hok hd (Bool.or_eq_true_iff.2 (.inr hbody))
  obtain ⟨definition, t₄, r₄, hfound, hexpanded⟩ :=
    expanded_of_copy_ok hgrammatical hok hbelow hu
  have heq : definition = h := Except.ok.inj (hfound.symm.trans hresolve)
  exact ⟨_, _, t₄, r₄, heq, hexpanded⟩

/-! ## What is reported is a cycle -/

/-- The groupings `gs` are being expanded, each because the one before refers to it, and the last of
them refers to `g`. -/
structure Trail (model : DeclaredModel) (gs : List Definition) (g : Definition) : Prop where
  refers : (gs ++ [g]).IsChain (Refers model)
  valid : ∀ x ∈ gs ++ [g], x.Valid model .grouping
  stacked : Stacked model .grouping (gs.map entry)

namespace Trail

variable {gs : List Definition}

theorem start (hg : g.Valid model .grouping) : Trail model [] g where
  refers := .singleton g
  valid x hx := by rw [List.mem_singleton.1 hx]; exact hg
  stacked := .nil

theorem valid_last (ht : Trail model gs g) : g.Valid model .grouping :=
  ht.valid g (List.mem_append_right _ List.mem_cons_self)

theorem push (ht : Trail model gs g) (hnot : ¬ g.isPending (gs.map entry) = true)
    (href : Refers model g h) : Trail model (gs ++ [g]) h where
  refers := by
    rw [List.append_assoc, List.singleton_append, List.isChain_append_cons_cons]
    exact ⟨ht.refers, href, .singleton h⟩
  valid x hx := by
    rcases List.mem_append.1 hx with hx | hx
    · exact ht.valid x hx
    · rw [List.mem_singleton.1 hx]
      exact valid_of_refers ht.valid_last href
  stacked := by
    rw [List.map_append]
    exact ht.stacked.push ht.valid_last hnot

/-- A grouping that is met while it is being expanded closes a cycle. -/
theorem isCycle {order : Bool} {sources : List Source}
    (declared : DeclaredModel.ofSources order sources = .ok model) (ht : Trail model gs g)
    (hpending : g.isPending (gs.map entry) = true) : IsCycle model (g.cycle (gs.map entry)) := by
  obtain ⟨first, middle, hfirst, hkey, hnames, hchain⟩ :=
    Definition.exists_cycle ht.refers hpending
  obtain ⟨hsource, hstatement⟩ :=
    (ht.valid first (List.mem_append_left _ hfirst)).eq_of_key_eq declared ht.valid_last hkey
  exact ⟨first, middle, g, hnames, hchain, hsource.symm, hstatement.symm⟩

end Trail

/-- What the expansion of a grouping reports as a cycle is one. -/
theorem isCycle_of_ofGrouping_error {order : Bool} {sources : List Source}
    (declared : DeclaredModel.ofSources order sources = .ok e.model) {depth : Nat}
    {gs : List Definition} {site : Site} (ht : Trail e.model gs site.definition)
    (hdepth : e.model.countOfKind .grouping ≤ depth + gs.length) {t : TypeTable}
    {source : SourceId} {location : Location} {names : List String}
    (herror : e.ofGrouping depth (gs.map entry) site t
      = .error (.groupingCycle source location names)) : IsCycle e.model names := by
  induction depth generalizing gs site t with
  | zero =>
    have hpending := ht.stacked.isPending_of_full ht.valid_last (by simpa using hdepth)
    cases herror
    exact ht.isCycle declared hpending
  | succ depth ih =>
    by_cases hpending : site.definition.isPending (gs.map entry) = true
    · rw [ofGrouping_of_pending hpending] at herror
      cases herror
      exact ht.isCycle declared hpending
    · rw [ofGrouping_succ hpending] at herror
      obtain ⟨c, hc, hcontent, t₁, herror⟩ := exists_copy_error herror
      obtain ⟨scope, u, definition, t₂, hwithin, hu, hresolve, herror⟩ :=
        exists_uses_of_copy_error herror
      -- the error was met at a `uses` in the content, which makes the trail one longer
      have href : Refers e.model site.definition definition :=
        ⟨c, hc, hcontent, scope, u, hwithin, hu, hresolve⟩
      refine ih (ht.push hpending href) ?_ (t := t₂) (by rw [List.map_append]; exact herror)
      rw [List.length_append, List.length_singleton]
      omega

/-- What instantiating a module reports as a cycle is one. -/
theorem isCycle_of_nodes_error {order : Bool} {sources : List Source}
    (declared : DeclaredModel.ofSources order sources = .ok e.model) {t : TypeTable}
    {source : SourceId} {location : Location} {names : List String}
    (herror : e.nodes t = .error (.groupingCycle source location names)) :
    IsCycle e.model names := by
  rcases Building.bind_eq_error.1 herror with herror | ⟨_, _, _, herror⟩
  · obtain ⟨s, t₁, hcomes, herror⟩ := Building.comes_of_error herror
    have hs := DeclaredModel.mem_of_family hcomes.mem
    obtain ⟨c, hc, _, t₂, herror⟩ := exists_copy_error herror
    obtain ⟨scope, u, definition, t₃, hwithin, _, hresolve, herror⟩ :=
      exists_uses_of_copy_error herror
    have hscope := hwithin.scope_valid hs
      (Tree.child_mem_subtrees (Tree.mem_subtrees_self _) hc) (Scope.valid_top e.module)
    have ht : Trail e.model [] (Site.mk s.id u.label.location definition).definition :=
      .start (Definition.valid_of_resolve hscope hresolve)
    exact isCycle_of_ofGrouping_error declared ht (Nat.le_refl _) herror
  · cases herror

/-! ## Termination and cycles -/

/-- Instantiating a module ends, and tells cycles of groupings.

* The depth to which groupings are expanded is never used up: from any greater bound on, the nodes
  are the same whatever is done when the bound is reached.
* If a module is instantiated, then neither a grouping declared in its family nor one to which
  references lead from there lies on a cycle; and from those to which references lead, none lead
  back to the same statement, also where it is seen in the family of another module.
* What is reported as a cycle are groupings each of which refers to the next one, and the last of
  which is the first. -/
theorem grouping_expansion {order : Bool} {sources : List Source} {model : DeclaredModel}
    (declared : DeclaredModel.ofSources order sources = .ok model) (m : DeclaredSource) :
    (∀ deeper depth, model.countOfKind .grouping < depth →
        nodesWith ⟨model, m.id⟩ deeper depth = nodes ⟨model, m.id⟩)
      ∧ (∀ tree, ModuleTree.ofModule model m = .ok tree → ∀ g, DeclaredIn model m.id g →
          (∀ h, ReflTransGen (Refers model) g h → ¬ TransGen (Refers model) h h)
          ∧ ∀ h, TransGen (Refers model) g h →
              ∀ h', TransGen (Refers model) h h' → ¬ SameStatement h h')
      ∧ ∀ source location names,
          ModuleTree.ofModule model m = .error (.groupingCycle source location names) →
          IsCycle model names := by
  refine ⟨fun deeper _ => nodesWith_eq ⟨model, m.id⟩ deeper, ?_, ?_⟩
  · intro tree htree g hg
    obtain ⟨r, hok, _⟩ := Result.bind_eq_ok.1 htree
    have hvalid : g.Valid model .grouping := by
      obtain ⟨hfamily, hkind, c, hc, hstands⟩ := hg
      have hs := DeclaredModel.mem_of_family hfamily
      have hc' := Tree.child_mem_subtrees (Tree.mem_subtrees_self g.source.root) hc
      exact ⟨hs, Tree.mem_subtrees_trans hstands.mem_subtrees hc', Declaration.is_iff.2 hkind,
        hstands.scope_valid hs hc' (Scope.valid_top _)⟩
    -- what a declared grouping leads to has been expanded, and so meets its own key never again
    have used : ∀ h, TransGen (Refers model) g h →
        ∀ h', TransGen (Refers model) h h' → h'.key ≠ h.key := by
      intro h hpath h' hpath'
      obtain ⟨x, href, hpath⟩ := TransGen.head'_iff.1 hpath
      have hx := expanded_of_nodes_ok (e := ⟨model, m.id⟩) declared hok hg href
      obtain ⟨hh, _, _, hexpanded⟩ := hx.reaches declared (valid_of_refers hvalid href) hpath
      exact hexpanded.key_ne_of_transGen declared hh hpath'
    constructor
    · intro h hpath hcycle
      exact used h (TransGen.trans_right hpath hcycle) h hcycle rfl
    · rintro h hpath h' hpath' ⟨hsource, hstatement⟩
      refine used h hpath h' hpath' ?_
      rw [Definition.key, Definition.key, hsource, hstatement]
  · intro source location names herror
    rcases Result.bind_eq_error.1 herror with herror | ⟨_, _, herror⟩
    · exact isCycle_of_nodes_error (e := ⟨model, m.id⟩) declared herror
    · cases herror

/-! ### Examples -/

/-- The grouping to which the first `uses` at the top of a grouping refers. -/
def firstReference? (model : DeclaredModel) (g : Definition) : Option Definition :=
  (g.statement.children.find? fun c => c.label.binding = .builtin .uses).bind fun u =>
    (Definition.resolve model g.source .grouping u.label g.inner).toOption

theorem refers_of_firstReference? (hfirst : firstReference? model g = some h) :
    Refers model g h := by
  obtain ⟨u, hu, hresolve⟩ := Option.bind_eq_some_iff.1 hfirst
  have huses : u.label.binding = .builtin .uses := by simpa using List.find?_some hu
  refine ⟨u, List.mem_of_find?_eq_some hu, by rw [huses]; rfl, g.inner, u, .here _ _, huses, ?_⟩
  exact Result.eq_ok_of_toOption hresolve

/-- What is found at the top of a module is declared in its family. -/
theorem declaredIn_of_atTop? {module : SourceId} {name : String}
    (hg : Definition.atTop? model .grouping name module = some g) :
    DeclaredIn model module g := by
  obtain ⟨s, hs, hfound⟩ := List.exists_of_findSome?_eq_some hg
  obtain ⟨d, hd, rfl⟩ := Option.map_eq_some_iff.1 hfound
  obtain ⟨hmem, hkind, _⟩ := Definition.mem_of_among? hd
  exact ⟨hs, Declaration.is_iff.1 hkind, d, hmem, .here _ _⟩

/-- Two revisions of a module with one submodule between them. The first revision uses a grouping of
the second one, which uses the grouping of the submodule. -/
def sharedSubmodule : List Source :=
  [.bareModule "a" [
      .bare "import" "a" [.bare "prefix" "p" [], .bare "revision-date" "2002-01-01" []],
      .bare "include" "s" [], .bare "revision" "2001-01-01" [],
      .bare "grouping" "x" [.bare "uses" "p:y" []]],
    .bareModule "a" [
      .bare "include" "s" [], .bare "revision" "2002-01-01" [],
      .bare "grouping" "x" [.bare "leaf" "l" [.bare "type" "string" []]],
      .bare "grouping" "y" [.bare "uses" "g" []]],
    ⟨"s", .bare "submodule" "s" [.bare "belongs-to" "a" [.bare "prefix" "a" []],
      .bare "grouping" "g" [.bare "uses" "x" []]]⟩]

/-- How the three are linked. -/
def sharedLinkage : Linkage :=
  let older : SourceId := ⟨"a", some ⟨2001, 1, 1, by decide⟩⟩
  let newer : SourceId := ⟨"a", some ⟨2002, 1, 1, by decide⟩⟩
  let s : SourceId := ⟨"s", none⟩
  let l : Location := .synthetic "bare"
  let includes : List Include := [⟨"s", none, l⟩]
  { sources := [
      ⟨⟨older, .module "a", .v1, "a", [⟨"a", "p", newer.revision, l⟩], includes, l⟩, older,
        [("a", older), ("p", newer)]⟩,
      ⟨⟨newer, .module "a", .v1, "a", [], includes, l⟩, newer, [("a", newer)]⟩,
      ⟨⟨s, .submodule "a", .v1, "a", [], [], l⟩, newer, [("a", newer)]⟩]
    families := [(older, [older, s]), (newer, [newer, s])]
    graph := ⟨[older, newer, s], [⟨older, newer, .imports⟩, ⟨older, s, .includes⟩,
      ⟨newer, s, .includes⟩, ⟨s, newer, .belongsTo⟩]⟩ }

/-- Their declared model. -/
def sharedModel : DeclaredModel := .ofLinkage sharedLinkage sharedSubmodule

/-- What is evaluated of it: the sources can be declared, and the first revision is instantiated and
has a grouping from which references lead back to the same statement. -/
theorem evaluated_sharedSubmodule :
    DeclaredModel.canDeclare sharedLinkage sharedSubmodule = true
      ∧ (sharedModel.modules.head?.bind fun m =>
        (ModuleTree.ofModule sharedModel m).toOption.bind fun _ =>
          (Definition.atTop? sharedModel .grouping "g" m.id).bind fun g =>
            (firstReference? sharedModel g).bind fun x =>
              (firstReference? sharedModel x).bind fun y =>
                (firstReference? sharedModel y).map fun h => decide (g.key = h.key))
        = some true := by
  decide +kernel

theorem ofSources_sharedSubmodule :
    DeclaredModel.ofSources true sharedSubmodule = .ok sharedModel :=
  DeclaredModel.ofSources_eq_ofLinkage (by cbv) rfl (by cbv) evaluated_sharedSubmodule.1

/-- The first revision is instantiated, and its submodule declares a grouping. -/
theorem sharedModel_instantiated : ∃ m tree g, m ∈ sharedModel.modules
    ∧ ModuleTree.ofModule sharedModel m = .ok tree
    ∧ Definition.atTop? sharedModel .grouping "g" m.id = some g
    ∧ ((firstReference? sharedModel g).bind fun x => (firstReference? sharedModel x).bind fun y =>
        (firstReference? sharedModel y).map fun h => decide (g.key = h.key)) = some true := by
  obtain ⟨-, h⟩ := evaluated_sharedSubmodule
  obtain ⟨m, hm, h⟩ := Option.bind_eq_some_iff.1 h
  obtain ⟨tree, htree, h⟩ := Option.bind_eq_some_iff.1 h
  obtain ⟨g, hg, h⟩ := Option.bind_eq_some_iff.1 h
  exact ⟨m, tree, g, List.mem_of_mem_head? hm, Result.eq_ok_of_toOption htree, hg, h⟩

/-- References can lead from a grouping of a module that is instantiated back to the same statement:
here from the grouping of the submodule to `x` of the first revision, then to `y` of the second one,
and from there to the grouping as it is seen in the family of the second revision. -/
theorem exists_reference_to_same_statement : ∃ m tree g h,
    DeclaredModel.ofSources true sharedSubmodule = .ok sharedModel
      ∧ m ∈ sharedModel.modules ∧ ModuleTree.ofModule sharedModel m = .ok tree
      ∧ DeclaredIn sharedModel m.id g
      ∧ TransGen (Refers sharedModel) g h ∧ SameStatement g h := by
  obtain ⟨m, tree, g, hm, htree, hg, hchain⟩ := sharedModel_instantiated
  obtain ⟨x, hx, hchain⟩ := Option.bind_eq_some_iff.1 hchain
  obtain ⟨y, hy, hchain⟩ := Option.bind_eq_some_iff.1 hchain
  obtain ⟨h, hh, hkey⟩ := Option.map_eq_some_iff.1 hchain
  have hgx := refers_of_firstReference? hx
  have hxy := refers_of_firstReference? hy
  have hyh := refers_of_firstReference? hh
  have hgvalid := Definition.valid_of_atTop? hg
  have hhvalid := valid_of_refers (valid_of_refers (valid_of_refers hgvalid hgx) hxy) hyh
  have hsame : SameStatement g h :=
    hhvalid.eq_of_key_eq ofSources_sharedSubmodule hgvalid (of_decide_eq_true hkey).symm
  exact ⟨m, tree, g, h, ofSources_sharedSubmodule, hm, htree, declaredIn_of_atTop? hg,
    ((TransGen.single hgx).tail hxy).tail hyh, hsame⟩

/-- Two groupings that use each other. -/
def usingEachOther : List Source :=
  [.bareModule "a" [.bare "grouping" "g" [.bare "uses" "h" []],
    .bare "grouping" "h" [.bare "uses" "g" []]]]

/-- Two groupings that use each other are reported, and a grouping of a module that is instantiated
does not lead to itself. -/
theorem grouping_expansion_two :
    (∃ model, DeclaredModel.ofSources true usingEachOther = .ok model
        ∧ IsCycle model ["a:h", "a:g", "a:h"])
      ∧ ∃ m tree g, ModuleTree.ofModule sharedModel m = .ok tree ∧ DeclaredIn sharedModel m.id g
        ∧ ¬ TransGen (Refers sharedModel) g g
        ∧ ∀ deeper, nodesWith ⟨sharedModel, m.id⟩ deeper 5 = nodes ⟨sharedModel, m.id⟩ := by
  constructor
  · have h : ((DeclaredModel.ofSources true usingEachOther).toOption.bind fun model =>
        model.modules.head?.map fun m => match ModuleTree.ofModule model m with
          | .ok _ => none
          | .error error => some error)
        = some (some (.groupingCycle ⟨"a", none⟩ (.synthetic "bare") ["a:h", "a:g", "a:h"])) := by
      decide +kernel
    obtain ⟨model, hmodel, h⟩ := Option.bind_eq_some_iff.1 h
    obtain ⟨m, _, herror⟩ := Option.map_eq_some_iff.1 h
    have declared := Result.eq_ok_of_toOption hmodel
    refine ⟨model, declared,
      (grouping_expansion declared m).2.2 ⟨"a", none⟩ (.synthetic "bare") _ ?_⟩
    split at herror
    · cases herror
    · rename_i err hr
      rw [hr, Option.some.inj herror]
  · obtain ⟨m, tree, g, _, htree, hg, _⟩ := sharedModel_instantiated
    obtain ⟨hdepth, hok, _⟩ := grouping_expansion ofSources_sharedSubmodule m
    have hdeclared := declaredIn_of_atTop? hg
    refine ⟨m, tree, g, htree, hdeclared, (hok tree htree g hdeclared).1 g .refl, fun deeper => ?_⟩
    exact hdepth deeper 5 (by decide +kernel)

end Expansion

end YangSchema
