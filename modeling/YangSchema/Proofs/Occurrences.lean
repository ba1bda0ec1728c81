import YangSchema.Proofs.Lexical
import YangSchema.Proofs.Replay

/-!
# What is copied while a module is instantiated

`Expansion.Copies e k d t`: in the course of instantiating a module, and be it that this fails later
on, the statement `d` comes to be copied in the manner `k` while the table of typedefs is `t`.

* `Copies.lexical`: every statement is copied in the scope of its own place, also where this place
  is in a grouping that is used from elsewhere.
* `Copies.succeeds`: where a module is instantiated, all this copying succeeds, and what it resolves
  is known at the end.
-/

namespace YangSchema

open Building (Comes ComesFrom Replays)
open TypeTable (Extends)

namespace Expansion

/-- In what manner a statement is copied: while which groupings are being expanded and how many more
can be, from which source and scope, and with which marks. -/
structure Manner where
  depth : Nat
  pending : List Definition.Pending
  source : DeclaredSource
  addedByUses : Bool
  isMember : Bool
  scope : Scope

namespace Manner

/-- Copying in a manner. -/
def copy (e : Expansion) (k : Manner) : Declaration → Building (List Node) :=
  Expansion.copy e (e.ofGrouping k.depth k.pending) k.source k.addedByUses k.isMember k.scope

/-- The manner in which the top-level statements of a source are copied. -/
def top (e : Expansion) (s : DeclaredSource) : Manner :=
  ⟨e.model.countOfKind .grouping, [], s, false, false, .top e.module⟩

/-- The manner in which the substatements of a statement are copied that is no `uses`. -/
def below (k : Manner) (d : Declaration) : Manner :=
  { k with
    isMember := d.label.binding = .builtin .type
    scope := k.scope.enter k.source d }

/-- The manner in which the content of a grouping is copied. -/
def content (k : Manner) (depth : Nat) (g : Definition) : Manner :=
  ⟨depth, k.pending ++ [entry g], g.source, true, false, g.inner⟩

/-- The manner in which the content of an `augment` under a `uses` is copied. -/
def added (k : Manner) (a : Declaration) : Manner :=
  { k with
    addedByUses := true
    isMember := false
    scope := k.scope.enter k.source a }

/-- The label of a statement that is copied in a manner, with its type. -/
def label (e : Expansion) (k : Manner) (d : Declaration) (type : Option EffectiveType) :
    NodeLabel :=
  { NodeLabel.ofDeclared e.module k.source.id k.addedByUses d.label with type := type }

/-- The nodes that the grouping of a `uses` brings, with the conditions of the `uses`. -/
def brought (k : Manner) (d : Declaration) (nodes : List Node) : List Node :=
  nodes.map (Node.addConditions (Node.conditionsOfDeclarations k.source.id d.children))

/-- Copying a statement comes down to copying what stands in it, or in an `augment` in it, and what
groupings bring, which are expanded at a smaller depth. -/
theorem induct {P : Manner → Declaration → Prop}
    (step : ∀ k d, (∀ depth g c, k.depth = depth + 1 → P (k.content depth g) c) →
      (∀ c ∈ d.children, P (k.below d) c) →
      (∀ a ∈ d.children, ∀ c ∈ a.children, P (k.added a) c) → P k d)
    (k : Manner) (d : Declaration) : P k d := by
  obtain ⟨depth, hdepth⟩ : ∃ depth, k.depth = depth := ⟨_, rfl⟩
  induction depth using Nat.strongRecOn generalizing k d with
  | ind depth ihdepth =>
    induction d using Tree.inductBelow generalizing k with
    | step d ih =>
      refine step k d (fun n g c hn => ?_) (fun c hc => ?_) fun a ha c hc => ?_
      · exact ihdepth n (by omega) _ c rfl
      · exact ih c hc c (Tree.mem_subtrees_self c) _ hdepth
      · exact ih a ha c (Tree.mem_subtrees_of_mem_child hc (Tree.mem_subtrees_self c)) _ hdepth

end Manner

/-- In the course of instantiating a module a statement comes to be copied. -/
inductive Copies (e : Expansion) : Manner → Declaration → TypeTable → Prop where
  /-- The top-level statements of the family are copied, one source after the other. -/
  | top {s : DeclaredSource} {d : Declaration} {t u : TypeTable} :
    Comes e.ofSource (e.model.family e.module) [] s t →
    Comes ((Manner.top e s).copy e)
      (s.root.children.filter fun d => s.id = e.module || isBody d.label.binding) t d u →
    Copies e (.top e s) d u
  /-- The substatements of what is no `uses` are copied when its type is known. -/
  | under {k : Manner} {d c : Declaration} {type : Option EffectiveType} {t u v : TypeTable} :
    Copies e k d t → ¬ IsUses d →
    e.typeOf k.source k.scope k.isMember d t = .ok (type, u) →
    Comes ((k.below d).copy e) d.children u c v → Copies e (k.below d) c v
  /-- The content of the grouping to which a `uses` refers is copied. -/
  | content {k : Manner} {d c : Declaration} {g : Definition} {depth : Nat} {t u : TypeTable} :
    Copies e k d t → IsUses d →
    Definition.resolve e.model k.source .grouping d.label k.scope = .ok g →
    k.depth = depth + 1 → ¬ g.isPending k.pending = true →
    Comes ((k.content depth g).copy e)
      (g.statement.children.filter fun c => Node.isGroupingContent c.label.binding) t c u →
    Copies e (k.content depth g) c u
  /-- The content of an `augment` under a `uses` is copied when the grouping has been expanded, the
  nodes have been refined and the `augment` statements before have been applied. -/
  | added {k : Manner} {d a c : Declaration} {g : Definition} {nodes refined changed : List Node}
    {target : List Nat × Node} {t u v w : TypeTable} :
    Copies e k d t → IsUses d →
    Definition.resolve e.model k.source .grouping d.label k.scope = .ok g →
    e.ofGrouping k.depth k.pending ⟨k.source.id, d.label.location, g⟩ t = .ok (nodes, u) →
    e.refineAll k.source.id (k.brought d nodes) (d.children.filter (Declaration.is · .refine))
      = .ok refined →
    ComesFrom (augmentOne e (e.ofGrouping k.depth k.pending) k.source k.scope)
      (d.children.filter isAugment) refined u a changed v →
    augmentTarget k.source.id a.label changed = .ok target →
    Comes ((k.added a).copy e)
      (a.children.filter fun c => Node.isAugmentContent c.label.binding) v c w →
    Copies e (k.added a) c w

/-! ## Scopes -/

variable {order : Bool} {sources : List Source} {e : Expansion} {k : Manner} {d c : Declaration}
  {g : Definition} {t : TypeTable}

/-- Every statement is copied in the scope of its own place. -/
theorem Copies.lexical (declared : DeclaredModel.ofSources order sources = .ok e.model)
    (h : Copies e k d t) : Lexical e.model k.source k.scope d := by
  induction h with
  | top hsource hcomes =>
    exact .top declared (DeclaredModel.mem_of_family hsource.mem) (List.mem_filter.1 hcomes.mem).1
  | @under k d c type t u v _ hnot _ hcomes ih =>
    exact ih.child_of_not_uses declared hnot hcomes.mem
  | content _ _ hresolve _ _ hcomes ih =>
    -- the scope changes to that of the grouping, which is lexical by the lookup
    obtain ⟨hg, hkind⟩ := (ih.agrees declared).lexical_of_resolve declared ih.source rfl hresolve
    exact hg.inner declared rfl hkind (List.mem_filter.1 hcomes.mem).1
  | @added k d a c g nodes refined changed target t u v w _ huses _ _ _ hfrom _ hcomes ih =>
    obtain ⟨ha, haugment⟩ := List.mem_filter.1 hfrom.mem
    have hnot : ¬ IsUses a := not_isUses_of_binding (of_decide_eq_true haugment) (by decide)
    -- the `augment` is entered, the `uses` around it is not
    have hunder := ih.child declared ha
    rw [Scope.inside_of_uses huses] at hunder
    exact hunder.child_of_not_uses declared hnot (List.mem_filter.1 hcomes.mem).1

/-! ## Where a module is instantiated -/

namespace Manner

theorem copy_replays (k : Manner) (d : Declaration) : Replays (k.copy e d) (k.copy e d) :=
  Expansion.copy_replays (fun site => ofGrouping_replays_self _ _ site) d

/-- Going through declarations that can all be copied copies the one to which it comes, and what
this resolves is known at the end. -/
theorem succeeds_of_comes {ds : List Declaration} {parts : List (List Node)} {u v : TypeTable}
    (hcomes : Comes (k.copy e) ds t d u) (hok : ds.mapM (k.copy e) t = .ok (parts, v)) :
    ∃ nodes w, k.copy e d u = .ok (nodes, w) ∧ Extends w v := by
  obtain ⟨nodes, w, after, rest, hd, hafter⟩ := hcomes.of_ok hok
  exact ⟨nodes, w, hd, (Replays.mapM (fun c _ => k.copy_replays c) w rest v hafter).1⟩

variable {nodes : List Node} {w : TypeTable}

/-- What is no `uses` becomes one node with its type and the copies of its substatements. -/
theorem mapM_of_not_uses (hnot : ¬ IsUses d) (hok : k.copy e d t = .ok (nodes, w)) :
    ∃ type u parts, e.typeOf k.source k.scope k.isMember d t = .ok (type, u)
      ∧ d.children.mapM ((k.below d).copy e) u = .ok (parts, w)
      ∧ nodes = [⟨k.label e d type, parts.flatten⟩] := by
  obtain ⟨type, u, copied, htype, hcopied, rfl⟩ := steps_of_not_uses hnot hok
  obtain ⟨parts, hparts, rfl⟩ := copyAll_eq_ok.1 hcopied
  rw [List.filter_true] at hparts
  exact ⟨type, u, parts, htype, hparts, rfl⟩

/-- A grouping that is expanded is not being expanded already and can be entered, and is the copies
of its content. -/
theorem mapM_of_ofGrouping_ok {site : Site}
    (hok : e.ofGrouping k.depth k.pending site t = .ok (nodes, w)) :
    ∃ depth parts, k.depth = depth + 1 ∧ ¬ site.definition.isPending k.pending = true
      ∧ (site.definition.statement.children.filter fun c =>
        Node.isGroupingContent c.label.binding).mapM ((k.content depth site.definition).copy e) t
          = .ok (parts, w)
      ∧ nodes = parts.flatten := by
  obtain ⟨depth, hdepth, hnot, hcopied⟩ := steps_of_ofGrouping hok
  obtain ⟨parts, hparts, rfl⟩ := copyAll_eq_ok.1 hcopied
  exact ⟨depth, parts, hdepth, hnot, hparts, rfl⟩

/-- Applying `augment` statements only adds to what is known. -/
theorem extends_of_foldlM {as : List Declaration} {before : List Node}
    (hok : as.foldlM (augmentOne e (e.ofGrouping k.depth k.pending) k.source k.scope) before t
      = .ok (nodes, w)) : Extends t w := by
  have hreplays : ∀ a ∈ as, ∀ before,
      Replays (augmentOne e (e.ofGrouping k.depth k.pending) k.source k.scope before a)
        (augmentOne e (e.ofGrouping k.depth k.pending) k.source k.scope before a) :=
    fun a _ before => augmentOne_replays (fun c _ => (k.added a).copy_replays c) before
  exact (Replays.foldlM hreplays before t nodes w hok).1

end Manner

/-- Where a module is instantiated, whatever comes to be copied is copied, and what this resolves is
known at the end. -/
theorem Copies.succeeds {nodes : List Node} {v : TypeTable} (hok : e.nodes [] = .ok (nodes, v))
    (h : Copies e k d t) : ∃ nodes w, k.copy e d t = .ok (nodes, w) ∧ Extends w v := by
  induction h with
  | top hsource hcomes =>
    obtain ⟨parts, _, hparts, hreturn⟩ := Building.bind_eq_ok.1 hok
    obtain ⟨_, rfl⟩ := Prod.mk.inj (Except.ok.inj hreturn)
    obtain ⟨part, w, after, rest, hs, hafter⟩ := hsource.of_ok hparts
    have hv := (Replays.mapM (fun s _ => ofSource_replays_self s) w rest _ hafter).1
    obtain ⟨copied, hcopied, _⟩ := copyAll_eq_ok.1 hs
    obtain ⟨r, x, hd, hx⟩ := Manner.succeeds_of_comes hcomes hcopied
    exact ⟨r, x, hd, hx.trans hv⟩
  | under _ hnot htype hcomes ih =>
    obtain ⟨r, w, hd, hw⟩ := ih
    obtain ⟨type', u', parts, htype', hparts, _⟩ := Manner.mapM_of_not_uses hnot hd
    obtain ⟨rfl, rfl⟩ := Prod.mk.inj (Except.ok.inj (htype.symm.trans htype'))
    obtain ⟨r, x, hc, hx⟩ := Manner.succeeds_of_comes hcomes hparts
    exact ⟨r, x, hc, hx.trans hw⟩
  | content _ huses hresolve hdepth hpending hcomes ih =>
    obtain ⟨r, w, hd, hw⟩ := ih
    obtain ⟨g', brought, y, refined, hresolve', hbrought, _, haugments⟩ := steps_of_uses huses hd
    obtain rfl := Except.ok.inj (hresolve.symm.trans hresolve')
    obtain ⟨depth', parts, hdepth', _, hparts, _⟩ := Manner.mapM_of_ofGrouping_ok hbrought
    obtain rfl := Nat.succ.inj (hdepth'.symm.trans hdepth)
    obtain ⟨r, x, hc, hx⟩ := Manner.succeeds_of_comes hcomes hparts
    exact ⟨r, x, hc, hx.trans ((Manner.extends_of_foldlM haugments).trans hw)⟩
  | added _ huses hresolve hbrought hrefined hfrom _ hcomes ih =>
    obtain ⟨r, w, hd, hw⟩ := ih
    obtain ⟨g', brought', u', refined', hresolve', hbrought', hrefined', haugments⟩ :=
      steps_of_uses huses hd
    -- the steps before are the same, for there is only one outcome from one table
    obtain rfl := Except.ok.inj (hresolve.symm.trans hresolve')
    obtain ⟨rfl, rfl⟩ := Prod.mk.inj (Except.ok.inj (hbrought.symm.trans hbrought'))
    obtain rfl := Except.ok.inj (hrefined.symm.trans hrefined')
    obtain ⟨b, x, after, ha, hafter⟩ := hfrom.of_ok haugments
    obtain ⟨_, added, _, hadded⟩ := steps_of_augmentOne ha
    obtain ⟨parts, hparts, _⟩ := copyAll_eq_ok.1 hadded
    obtain ⟨r, y, hc, hy⟩ := Manner.succeeds_of_comes hcomes hparts
    exact ⟨r, y, hc, hy.trans ((Manner.extends_of_foldlM hafter).trans hw)⟩

/-! ### What comes to be copied -/

variable {nodes : List Node} {v : TypeTable}

/-- The top-level statements of the family come to be copied. -/
theorem exists_copies_top (hok : e.nodes [] = .ok (nodes, v)) {s : DeclaredSource}
    (hs : s ∈ e.model.family e.module) (hd : d ∈ s.root.children)
    (hcopied : (s.id = e.module || isBody d.label.binding) = true) :
    ∃ t, Copies e (.top e s) d t := by
  obtain ⟨parts, _, hparts, _⟩ := Building.bind_eq_ok.1 hok
  obtain ⟨t, hsource⟩ := Building.exists_comes hparts hs
  obtain ⟨part, w, _, _, hpart, _⟩ := hsource.of_ok hparts
  obtain ⟨copied, hcopies, _⟩ := copyAll_eq_ok.1 hpart
  obtain ⟨u, hcomes⟩ := Building.exists_comes hcopies (List.mem_filter.2 ⟨hd, hcopied⟩)
  exact ⟨u, .top hsource hcomes⟩

/-- The substatements of what is copied come to be copied. -/
theorem Copies.exists_under (hok : e.nodes [] = .ok (nodes, v)) (h : Copies e k d t)
    (hnot : ¬ IsUses d) (hc : c ∈ d.children) : ∃ u, Copies e (k.below d) c u := by
  obtain ⟨copied, w, hd, _⟩ := h.succeeds hok
  obtain ⟨type, u, parts, htype, hparts, _⟩ := Manner.mapM_of_not_uses hnot hd
  obtain ⟨v, hcomes⟩ := Building.exists_comes hparts hc
  exact ⟨v, .under h hnot htype hcomes⟩

/-- The content of a grouping that is used comes to be copied. -/
theorem Copies.exists_content (hok : e.nodes [] = .ok (nodes, v)) (h : Copies e k d t)
    (huses : IsUses d)
    (hresolve : Definition.resolve e.model k.source .grouping d.label k.scope = .ok g)
    (hc : c ∈ g.statement.children) (hcontent : Node.isGroupingContent c.label.binding = true) :
    ∃ depth u, Copies e (k.content depth g) c u := by
  obtain ⟨copied, w, hd, _⟩ := h.succeeds hok
  obtain ⟨g', brought, u, refined, hresolve', hbrought, _⟩ := steps_of_uses huses hd
  obtain rfl := Except.ok.inj (hresolve.symm.trans hresolve')
  obtain ⟨depth, parts, hdepth, hnot, hparts, _⟩ := Manner.mapM_of_ofGrouping_ok hbrought
  obtain ⟨v, hcomes⟩ := Building.exists_comes hparts (List.mem_filter.2 ⟨hc, hcontent⟩)
  exact ⟨depth, v, .content h huses hresolve hdepth hnot hcomes⟩

end Expansion

end YangSchema
