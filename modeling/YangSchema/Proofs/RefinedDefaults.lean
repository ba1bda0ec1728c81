import YangSchema.Proofs.Refining

/-!
# Defaults that are refined

A leaf-list may have several defaults, and there a `refine` adds to them: it is for this kind of
target alone that a `default` does not take the place of others (`Expansion.replaces`). So behind
all the `refine` statements of a `uses` a leaf-list has the defaults with which it has come,
followed by those of every `refine` that leads to it. These may include what the `uses` inside the
grouping have refined, as their nodes are among those that the grouping brings.

To say so, nodes are named by the names that lead to them. Their addresses will not do: a property
that takes the place of another one moves to the end, and what stands behind it moves up
(`Node.Leads.forestReplace`).
-/

namespace YangSchema

namespace Node

variable {name name' : String} {names names' : List String} {ns ms : List Node} {n t u x : Node}
  {p q : List Nat} {i j : Nat} {f : Node → Node}

/-! ## Names in a list that changes -/

theorem isCalled_congr {m : Node} (h : m.label = n.label) : isCalled name m = isCalled name n := by
  unfold isCalled isSchemaNode schemaName
  rw [h]

theorem isSchemaNode_congr {m : Node} (h : m.label = n.label) :
    isSchemaNode m = isSchemaNode n := by
  unfold isSchemaNode
  rw [h]

/-- What is changed at one place without its label keeps its name. -/
theorem isCalled_of_modify {m : Node} (hn : ns[i]? = some n) (hf : (f n).label = n.label)
    (hm : (ns.modify i f)[j]? = some m) : ∃ c, ns[j]? = some c ∧ c.label = m.label := by
  rw [List.getElem?_modify] at hm
  obtain ⟨c, hc, rfl⟩ := Option.map_eq_some_iff.1 hm
  refine ⟨c, hc, ?_⟩
  split
  · rename_i hij
    cases (hij ▸ hn).symm.trans hc
    exact hf.symm
  · rfl

theorem IsFirst.modify_self (h : IsFirst name ns i n) (hf : (f n).label = n.label) :
    IsFirst name (ns.modify i f) i (f n) where
  at_place := by
    rw [List.getElem?_modify_eq, h.at_place]
    rfl
  called := (isCalled_congr hf).trans h.called
  others := by
    intro j hj m hm
    obtain ⟨c, hc, hlabel⟩ := isCalled_of_modify h.at_place hf hm
    rw [← isCalled_congr hlabel]
    exact h.others j hj c hc

/-- A change of the first node of a name does not touch the one of another name. -/
theorem IsFirst.modify_of_ne {m : Node} (h : IsFirst name ns j n) (h' : IsFirst name' ns i m)
    (hne : name ≠ name') (hf : (f m).label = m.label) : IsFirst name (ns.modify i f) j n where
  at_place := by
    have hij : i ≠ j := by
      rintro rfl
      cases h.at_place.symm.trans h'.at_place
      have hname := (Bool.and_eq_true_iff.1 h.called).2
      have hname' := (Bool.and_eq_true_iff.1 h'.called).2
      exact hne ((beq_iff_eq.1 hname).symm.trans (beq_iff_eq.1 hname'))
    rw [List.getElem?_modify_ne _ _ hij]
    exact h.at_place
  called := h.called
  others := by
    intro k hk c hc
    obtain ⟨c', hc', hlabel⟩ := isCalled_of_modify h'.at_place hf hc
    rw [← isCalled_congr hlabel]
    exact h.others k hk c' hc'

theorem exists_isFirst_iff : (∃ i, IsFirst name ns i n) ↔ ns.find? (isCalled name) = some n := by
  constructor
  · rintro ⟨i, h⟩
    obtain ⟨hlt, rfl⟩ := List.getElem?_eq_some_iff.1 h.at_place
    refine List.find?_eq_some_iff_getElem.2 ⟨h.called, i, hlt, rfl, fun j hj => ?_⟩
    rw [h.others j hj _ (List.getElem?_eq_getElem _)]
    rfl
  · intro h
    obtain ⟨hcalled, i, hlt, rfl, hothers⟩ := List.find?_eq_some_iff_getElem.1 h
    refine ⟨i, List.getElem?_eq_getElem hlt, hcalled, fun j hj m hm => ?_⟩
    obtain ⟨_, rfl⟩ := List.getElem?_eq_some_iff.1 hm
    simpa using hothers j hj

/-- Only schema nodes are found by their names. -/
theorem find?_isCalled_filter (name : String) (ns : List Node) :
    (ns.filter isSchemaNode).find? (isCalled name) = ns.find? (isCalled name) := by
  rw [List.find?_filter]
  congr 1
  funext n
  unfold isCalled
  cases isSchemaNode n with
  | false => rfl
  | true => simp only [Bool.true_and, true_and, Bool.decide_eq_true]

/-- Where a path leads is a matter of the schema nodes at each step. -/
theorem Leads.congr (h : Leads names ns p x)
    (hschema : ms.filter isSchemaNode = ns.filter isSchemaNode) : ∃ q, Leads names ms q x := by
  have hfirst : ∀ {name i n}, IsFirst name ns i n → ∃ j, IsFirst name ms j n := by
    intro name i n hn
    rw [exists_isFirst_iff, ← find?_isCalled_filter, hschema, find?_isCalled_filter]
    exact exists_isFirst_iff.1 ⟨i, hn⟩
  cases h with
  | here first =>
    obtain ⟨j, first⟩ := hfirst first
    exact ⟨[j], .here first⟩
  | child first rest =>
    obtain ⟨j, first⟩ := hfirst first
    exact ⟨j :: _, .child first rest⟩

theorem Leads.ne_nil (h : Leads names ns p x) : names ≠ [] := by
  cases h <;> exact List.cons_ne_nil _ _

theorem filter_modify_of_not {r : Node → Bool}
    (hf : ∀ m, ns[i]? = some m → r m = false ∧ r (f m) = false) :
    (ns.modify i f).filter r = ns.filter r := by
  induction ns generalizing i with
  | nil => rw [List.modify_nil]
  | cons n ns ih =>
    cases i with
    | zero =>
      obtain ⟨hn, hfn⟩ := hf n rfl
      rw [List.modify_zero_cons, List.filter_cons_of_neg (by rw [hfn]; exact Bool.false_ne_true),
        List.filter_cons_of_neg (by rw [hn]; exact Bool.false_ne_true)]
    | succ i =>
      rw [List.modify_succ_cons, List.filter_cons, List.filter_cons, ih hf]

/-- The children that are no schema nodes. -/
def plainChildren (n : Node) : List Node := n.children.filter (!isSchemaNode ·)

/-- Replacing below a node, along a path, touches none of its children that are no schema nodes. -/
theorem Leads.plainChildren_replace (h : Leads names n.children q t) (hlabel : u.label = t.label) :
    (Tree.replace u q n).label = n.label
      ∧ plainChildren (Tree.replace u q n) = plainChildren n := by
  have htouched : ∀ {name i c q}, IsFirst name n.children i c →
      (Tree.replace u q c).label = c.label →
      plainChildren (Tree.replace u (i :: q) n) = plainChildren n := by
    intro name i c q first hkept
    refine filter_modify_of_not fun m hm => ?_
    cases first.at_place.symm.trans hm
    have hschema := (Bool.and_eq_true_iff.1 first.called).1
    rw [isSchemaNode_congr hkept, hschema]
    exact ⟨rfl, rfl⟩
  cases h with
  | here first => exact ⟨rfl, htouched first hlabel⟩
  | child first rest =>
    have hkept := Tree.Everywhere.label_replace rest.passes.subtree? hlabel
    exact ⟨rfl, htouched first hkept⟩

/-- Where a node is replaced by one with the same label and the same schema children, names lead
where they have led. What is found there has changed if it is this node; otherwise it may have
changed further below, but the children that are no schema nodes are as they were. -/
theorem Leads.forestReplace (hx : Leads names ns p x) (ht : Leads names' ns q t)
    (hlabel : u.label = t.label) (hschema : u.schemaChildren = t.schemaChildren) :
    ∃ p' x', Leads names (Tree.forestReplace u ns q) p' x' ∧ x'.label = x.label
      ∧ (names = names' → x' = u)
      ∧ (names ≠ names' → plainChildren x' = plainChildren x) := by
  induction hx generalizing names' q with
  | @here name ns j n first =>
    cases ht with
    | @here name' _ i _ first' =>
      by_cases hname : name = name'
      · subst hname
        obtain ⟨rfl, rfl⟩ := first.eq first'
        exact ⟨_, u, .here (first.modify_self (f := Tree.replace u []) hlabel), hlabel,
          fun _ => rfl, fun hne => absurd rfl hne⟩
      · exact ⟨_, n, .here (first.modify_of_ne first' hname hlabel), rfl,
          fun heq => absurd (List.cons.inj heq).1 hname, fun _ => rfl⟩
    | @child name' names' _ i m _ q first' rest' =>
      obtain ⟨hkept, hplain⟩ := rest'.plainChildren_replace hlabel
      have hnames : [name] ≠ name' :: names' :=
        fun heq => rest'.ne_nil (List.cons.inj heq).2.symm
      by_cases hname : name = name'
      · subst hname
        obtain ⟨rfl, rfl⟩ := first.eq first'
        exact ⟨_, _, .here (first.modify_self hkept), hkept, fun heq => absurd heq hnames,
          fun _ => hplain⟩
      · exact ⟨_, n, .here (first.modify_of_ne first' hname hkept), rfl,
          fun heq => absurd heq hnames, fun _ => rfl⟩
  | @child name names ns j n x p first rest ih =>
    cases ht with
    | @here name' _ i _ first' =>
      have hnames : name :: names ≠ [name'] := fun heq => rest.ne_nil (List.cons.inj heq).2
      by_cases hname : name = name'
      · subst hname
        obtain ⟨rfl, rfl⟩ := first.eq first'
        have hsame : u.children.filter isSchemaNode = n.children.filter isSchemaNode := hschema
        obtain ⟨p', rest⟩ := rest.congr hsame
        exact ⟨_, x, .child (first.modify_self (f := Tree.replace u []) hlabel) rest, rfl,
          fun heq => absurd heq hnames, fun _ => rfl⟩
      · exact ⟨_, x, .child (first.modify_of_ne first' hname hlabel) rest, rfl,
          fun heq => absurd heq hnames, fun _ => rfl⟩
    | @child name' names' _ i m _ q first' rest' =>
      obtain ⟨hkept, _⟩ := rest'.plainChildren_replace hlabel
      by_cases hname : name = name'
      · subst hname
        obtain ⟨rfl, rfl⟩ := first.eq first'
        obtain ⟨p', x', hleads, hlabel', hself, hother⟩ := ih rest'
        have hchildren : (Tree.replace u q n).children = Tree.forestReplace u n.children q :=
          congrArg Tree.children (rest'.passes.replace_eq u)
        rw [← hchildren] at hleads
        exact ⟨_, x', .child (first.modify_self hkept) hleads, hlabel',
          fun heq => hself (List.cons.inj heq).2, fun hne => hother fun heq => hne (heq ▸ rfl)⟩
      · exact ⟨_, x, .child (first.modify_of_ne first' hname hkept) rest, rfl,
          fun heq => absurd (List.cons.inj heq).1 hname, fun _ => rfl⟩

end Node

namespace Expansion

open Node (Leads)

variable {e : Expansion} {source : SourceId} {d : Declaration} {ds : List Declaration}
  {nodes nodes' : List Node} {address : List Nat} {t x : Node} {names : List String}

/-! ## One `refine` -/

/-- The names that the path of a `refine` gives. -/
def pathNames? (d : Declaration) : Option (List String) :=
  (SchemaPath.steps? false d.argumentText).map (List.map (·.name))

/-- The defaults that a `refine` states. -/
def statedDefaults (e : Expansion) (source : SourceId) (d : Declaration) : List Node :=
  (e.stated source d).filter (Node.is · .default)

/-- The defaults of the target of a `refine` before and behind it. -/
theorem defaults_of_refine (h : e.refine source nodes d = .ok nodes')
    (htargets : Targets d nodes address t) : ∃ t', Tree.forestSubtree? nodes' address = some t'
      ∧ t'.label = t.label
      ∧ (Node.kind? t = some .leafList → Node.childrenOfKind t' .default
        = Node.childrenOfKind t .default ++ e.statedDefaults source d)
      ∧ (Node.kind? t ≠ some .leafList → ∀ p, (e.statedDefaults source d).getLast? = some p →
        Node.childrenOfKind t' .default = [p]) := by
  obtain ⟨address', t₀, T, htargets', hT, _, rfl⟩ := exists_of_refine h
  obtain ⟨steps, hsteps, hleads⟩ := htargets
  obtain ⟨steps', hsteps', hleads'⟩ := htargets'
  cases hsteps.symm.trans hsteps'
  obtain ⟨rfl, rfl⟩ := hleads.eq hleads'
  have ht := (Node.leads_iff.1 hleads).2
  refine ⟨_, Tree.forestSubtree?_forestReplace_self _ ht, rfl, fun hlist => ?_,
    fun hother p hp => ?_⟩
  · cases hT.symm.trans hlist
    exact filter_foldl_restate_of_adds rfl
  · have hreplaces : replaces .default T = true := by
      refine replaces_eq_true (fun h => nomatch h) (fun h => nomatch h) fun _ => ?_
      rintro rfl
      exact hother hT
    show ((e.stated source d).foldl (restate T) t.children).filter (Node.is · .default) = [p]
    rw [filter_foldl_restate_of_replaces hreplaces,
      show ((e.stated source d).filter (Node.is · .default)).getLast? = some p from hp]

/-! ## All of them -/

/-- Of the properties that a `refine` may have, none is a schema node. -/
theorem not_isSchemaNode_of_refine {K : Kind} (h : (Kind.refine.substatement? K).isSome = true) :
    K.isSchemaNode = false := by
  have hall : ∀ K ∈ Kind.all, (Kind.refine.substatement? K).isSome → K.isSchemaNode = false := by
    decide +kernel
  exact hall K (Kind.mem_all K) h

/-- The properties of a `refine` that follows the grammar are no schema nodes. -/
theorem not_isSchemaNode_of_stated (hgrammar : d.Grammatical) (hd : Declaration.is d .refine = true)
    {p : Node} (hp : p ∈ e.stated source d) : Node.isSchemaNode p = false := by
  obtain ⟨c, hc, rfl⟩ := List.mem_map.1 hp
  have hkind := kind?_ofDeclaration e.module source true c
  unfold Node.isSchemaNode NodeLabel.isSchemaNode
  change (Node.kind? _).any _ = false
  rw [hkind]
  cases hK : Declaration.kind? c with
  | none => rfl
  | some K =>
    exact not_isSchemaNode_of_refine
      (hgrammar.isSome_substatement? (Declaration.is_iff.1 hd) hc hK)

/-- What is no schema node does not take the place of one. -/
theorem not_supersedes_of_isSchemaNode {T : Kind} {p c : Node}
    (hp : Node.isSchemaNode p = false) (hc : Node.isSchemaNode c = true) :
    supersedes T p c = false := by
  refine not_supersedes_of_ne fun heq => ?_
  have hsame : Node.isSchemaNode p = Node.isSchemaNode c := congrArg (·.any (·.isSchemaNode)) heq
  rw [hp, hc] at hsame
  cases hsame

/-- Properties that are no schema nodes leave the schema nodes as they are. -/
theorem schemaChildren_foldl_restate {T : Kind} {ps cs : List Node}
    (hps : ∀ p ∈ ps, Node.isSchemaNode p = false) :
    (ps.foldl (restate T) cs).filter Node.isSchemaNode = cs.filter Node.isSchemaNode := by
  have hnone : ps.filter Node.isSchemaNode = [] :=
    List.filter_eq_nil_iff.2 fun p hp => Bool.eq_false_iff.1 (hps p hp)
  rw [filter_foldl_restate fun p hp _ hc => not_supersedes_of_isSchemaNode (hps p hp) hc, hnone,
    List.append_nil]

theorem childrenOfKind_of_plainChildren {n n' : Node} {K : Kind} (hK : K.isSchemaNode = false)
    (h : Node.plainChildren n' = Node.plainChildren n) :
    Node.childrenOfKind n' K = Node.childrenOfKind n K := by
  have hplain (n : Node) : (Node.plainChildren n).filter (Node.is · K)
      = Node.childrenOfKind n K := by
    refine (List.filter_filter ..).trans (List.filter_congr fun c _ => ?_)
    cases hc : Node.is c K with
    | false => rfl
    | true =>
      have hname : Node.isSchemaNode c = false := by
        unfold Node.isSchemaNode NodeLabel.isSchemaNode
        change (Node.kind? c).any _ = false
        rw [Deviation.is_iff.1 hc]
        exact hK
      rw [hname]
      rfl
  rw [← hplain, h, hplain]

/-- A `refine` leaves a leaf-list where it is, and adds its defaults if it leads there. -/
theorem leads_of_refine (hgrammar : d.Grammatical) (hd : Declaration.is d .refine = true)
    (h : e.refine source nodes d = .ok nodes') (hx : Leads names nodes address x)
    (hlist : Node.kind? x = some .leafList) : ∃ address' x', Leads names nodes' address' x'
      ∧ x'.label = x.label ∧ Node.childrenOfKind x' .default = Node.childrenOfKind x .default
        ++ if pathNames? d = some names then e.statedDefaults source d else [] := by
  obtain ⟨address', t, T, ⟨steps, hsteps, hleads⟩, hT, _, rfl⟩ := exists_of_refine h
  have hpath : pathNames? d = some (steps.map (·.name)) := congrArg (Option.map _) hsteps
  obtain ⟨p', x', hx', hlabel, hself, hother⟩ := hx.forestReplace
    (u := ⟨t.label, (e.stated source d).foldl (restate T) t.children⟩) hleads rfl
    (schemaChildren_foldl_restate fun p hp => not_isSchemaNode_of_stated hgrammar hd hp)
  refine ⟨p', x', hx', hlabel, ?_⟩
  by_cases hnames : names = steps.map (·.name)
  · subst hnames
    obtain ⟨_, rfl⟩ := hx.eq hleads
    cases hT.symm.trans hlist
    rw [hself rfl, if_pos hpath]
    exact filter_foldl_restate_of_adds rfl
  · have hne : pathNames? d ≠ some names := fun heq =>
      hnames (Option.some.inj (heq.symm.trans hpath))
    rw [if_neg hne, List.append_nil]
    exact childrenOfKind_of_plainChildren rfl (hother hnames)

/-- Several of them add their defaults one after the other. -/
theorem leads_of_refineAll (hgrammar : ∀ d ∈ ds, d.Grammatical ∧ Declaration.is d .refine = true)
    (h : e.refineAll source nodes ds = .ok nodes') (hx : Leads names nodes address x)
    (hlist : Node.kind? x = some .leafList) : ∃ address' x', Leads names nodes' address' x'
      ∧ x'.label = x.label ∧ Node.childrenOfKind x' .default = Node.childrenOfKind x .default
        ++ (ds.filter fun d => pathNames? d = some names).flatMap (e.statedDefaults source) := by
  induction ds generalizing nodes address x with
  | nil =>
    cases h
    exact ⟨address, x, hx, rfl, (List.append_nil _).symm⟩
  | cons d ds ih =>
    obtain ⟨⟨hd, hrefine⟩, hds⟩ := List.forall_mem_cons.1 hgrammar
    obtain ⟨nodes₁, hfirst, hrest⟩ := Result.bind_eq_ok.1 (List.foldlM_cons.symm.trans h)
    obtain ⟨address₁, x₁, hx₁, hlabel₁, hdefaults₁⟩ :=
      leads_of_refine hd hrefine hfirst hx hlist
    have hlist₁ : Node.kind? x₁ = some .leafList := (congrArg NodeLabel.kind? hlabel₁).trans hlist
    obtain ⟨address', x', hx', hlabel, hdefaults⟩ := ih hds hrest hx₁ hlist₁
    refine ⟨address', x', hx', hlabel.trans hlabel₁, ?_⟩
    rw [hdefaults, hdefaults₁, List.append_assoc, List.filter_cons]
    by_cases hpath : pathNames? d = some names
    · rw [if_pos hpath, if_pos (decide_eq_true hpath), List.flatMap_cons]
    · rw [if_neg hpath, if_neg (by simpa using hpath), List.nil_append]

/-- **A `refine` adds to the defaults of a leaf-list.** Behind one that succeeds, a leaf-list has
the defaults that it has had, in their order, and those of the `refine` behind them. These are all
only where there have been none. For a target of any other kind the last default of the `refine`
takes the place of all. Behind all `refine` statements of a `uses`, a leaf-list that has come with
it has its own defaults, followed by those of all the statements that lead to it. -/
theorem refine_adds_leafList_defaults (e : Expansion) :
    (∀ source nodes d nodes' address t, e.refine source nodes d = .ok nodes' →
      Targets d nodes address t → ∃ t', Tree.forestSubtree? nodes' address = some t'
        ∧ t'.label = t.label
        ∧ (Node.kind? t = some .leafList →
          Node.childrenOfKind t' .default
              = Node.childrenOfKind t .default ++ e.statedDefaults source d
            ∧ (Node.childrenOfKind t' .default = e.statedDefaults source d
              ↔ Node.childrenOfKind t .default = []))
        ∧ (Node.kind? t ≠ some .leafList → ∀ p, (e.statedDefaults source d).getLast? = some p →
          Node.childrenOfKind t' .default = [p]))
    ∧ ∀ order sources s d nodes nodes', DeclaredModel.ofSources order sources = .ok e.model →
      s ∈ e.model.sources → d ∈ s.root.subtrees →
      e.refineAll s.id nodes (d.children.filter (Declaration.is · .refine)) = .ok nodes' →
      ∀ names address x, Leads names nodes address x → Node.kind? x = some .leafList →
        ∃ address' x', Leads names nodes' address' x' ∧ x'.label = x.label
          ∧ Node.childrenOfKind x' .default = Node.childrenOfKind x .default
            ++ ((d.children.filter (Declaration.is · .refine)).filter
              fun r => pathNames? r = some names).flatMap (e.statedDefaults s.id) := by
  constructor
  · intro source nodes d nodes' address t h htargets
    obtain ⟨t', ht', hlabel, hlist, hother⟩ := defaults_of_refine h htargets
    refine ⟨t', ht', hlabel, fun hT => ⟨hlist hT, ?_⟩, hother⟩
    rw [hlist hT]
    constructor
    · intro heq
      exact List.append_left_eq_self.1 heq
    · intro hnil
      rw [hnil, List.nil_append]
  · intro order sources s d nodes nodes' declared hs hd h names address x hx hlist
    have hgrammar := (DeclaredModel.grammatical_of_ofSources declared hs).of_mem hd
    refine leads_of_refineAll (fun r hr => ?_) h hx hlist
    obtain ⟨hr, hrefine⟩ := List.mem_filter.1 hr
    exact ⟨hgrammar.child hr, hrefine⟩

/-- A leaf-list with a default, which is refined in a grouping and twice where this is used. -/
def nestedDefaults : List Source :=
  [.bareModule "a" [
    .bare "grouping" "h"
      [.bare "leaf-list" "l" [.bare "type" "string" [], .bare "default" "a" []]],
    .bare "grouping" "g" [.bare "uses" "h" [.bare "refine" "l" [.bare "default" "b" []]]],
    .bare "uses" "g" [.bare "refine" "l" [.bare "default" "c" [], .bare "default" "d" []],
      .bare "refine" "l" [.bare "default" "e" []]]]]

/-- How it is instantiated. -/
def nestedExpansion : Expansion := ⟨.ofLinkage Augmentation.loneLinkage nestedDefaults, ⟨"a", none⟩⟩

theorem refine_adds_leafList_defaults_nested : ∃ source uses nodes nodes' address x',
    nestedExpansion.firstUse? = some (source, uses, nodes)
      ∧ nestedExpansion.refineAll source.id nodes
        (uses.children.filter (Declaration.is · .refine)) = .ok nodes'
      ∧ Leads ["l"] nodes' address x' ∧ Deviation.argumentsOf .default x'
        = [some "a", some "b", some "c", some "d", some "e"] := by
  obtain ⟨hdeclare, h⟩ :
    DeclaredModel.canDeclare Augmentation.loneLinkage nestedDefaults = true ∧ (do
      let use ← nestedExpansion.firstUse?
      let refines := use.2.1.children.filter (Declaration.is · .refine)
      let nodes' ← (nestedExpansion.refineAll use.1.id use.2.2 refines).toOption
      let t ← Tree.forestSubtree? use.2.2 [0]
      return decide (nodes'.length = 1
        ∧ Node.addressIn? use.2.2 [⟨none, "l"⟩] = some [0] ∧ Node.kind? t = some .leafList
        ∧ Deviation.argumentsOf .default t = [some "a", some "b"]
        ∧ ((refines.filter fun r => pathNames? r = some ["l"]).flatMap
            (nestedExpansion.statedDefaults use.1.id)).map (·.label.argument)
          = [some "c", some "d", some "e"])) = some true := by
    decide +kernel
  have declared : DeclaredModel.ofSources true nestedDefaults = .ok nestedExpansion.model :=
    DeclaredModel.ofSources_eq_ofLinkage (by cbv) rfl (by cbv) hdeclare
  obtain ⟨⟨source, uses, nodes⟩, hfirst, h⟩ := Option.bind_eq_some_iff.1 h
  obtain ⟨nodes', hnodes', h⟩ := Option.bind_eq_some_iff.1 h
  obtain ⟨t, ht, h⟩ := Option.bind_eq_some_iff.1 h
  obtain ⟨_, haddress, hkind, hbrought, hstated⟩ := of_decide_eq_true (Option.some.inj h)
  obtain ⟨hsource, huses⟩ := mem_of_firstUse? hfirst
  obtain ⟨_, hall⟩ := refine_adds_leafList_defaults nestedExpansion
  obtain ⟨address, x', hx', _, hdefaults⟩ := hall true nestedDefaults source uses nodes nodes'
    declared hsource huses (Result.eq_ok_of_toOption hnodes') ["l"] [0] t
    (Node.leads_iff.2 ⟨haddress, ht⟩) hkind
  refine ⟨source, uses, nodes, nodes', address, x', hfirst, Result.eq_ok_of_toOption hnodes', hx',
    ?_⟩
  rw [Deviation.argumentsOf, hdefaults, List.map_append, hstated]
  exact congrArg (· ++ [some "c", some "d", some "e"]) hbrought

/-- A leaf-list with a default, and a `refine` with another one. -/
def refinedDefault : List Source :=
  [.bareModule "a" [
    .bare "grouping" "g"
      [.bare "leaf-list" "l" [.bare "type" "string" [], .bare "default" "x" []]],
    .bare "uses" "g" [.bare "refine" "l" [.bare "default" "y" []]]]]

/-- How it is instantiated. -/
def refinedDefaultExpansion : Expansion :=
  ⟨.ofLinkage Augmentation.loneLinkage refinedDefault, ⟨"a", none⟩⟩

/-- The default with which the leaf-list has come remains, in the module too. -/
theorem refine_keeps_leafList_default :
    DeclaredModel.ofSources true refinedDefault = .ok refinedDefaultExpansion.model
      ∧ (∃ source uses nodes d nodes' address t t',
        refinedDefaultExpansion.firstUse? = some (source, uses, nodes) ∧ d ∈ uses.children
          ∧ refinedDefaultExpansion.refine source.id nodes d = .ok nodes'
          ∧ Targets d nodes address t ∧ Node.kind? t = some .leafList
          ∧ (refinedDefaultExpansion.statedDefaults source.id d).map (·.label.argument) = [some "y"]
          ∧ Tree.forestSubtree? nodes' address = some t'
          ∧ Deviation.argumentsOf .default t' = [some "x", some "y"])
      ∧ ∃ tree, Forest.ofModel refinedDefaultExpansion.model = .ok [tree]
        ∧ (tree.statements .leafList).map (Deviation.argumentsOf .default)
          = [[some "x", some "y"]] := by
  obtain ⟨hdeclare, h, hforest⟩ :
    DeclaredModel.canDeclare Augmentation.loneLinkage refinedDefault = true ∧ (do
      let use ← refinedDefaultExpansion.firstUse?
      let d ← use.2.1.children.head?
      let nodes' ← (refinedDefaultExpansion.refine use.1.id use.2.2 d).toOption
      let steps ← SchemaPath.steps? false (Declaration.argumentText d)
      let address ← Node.addressIn? use.2.2 steps
      let t ← Tree.forestSubtree? use.2.2 address
      let t' ← Tree.forestSubtree? nodes' address
      return decide (Node.kind? t = some .leafList
        ∧ (refinedDefaultExpansion.statedDefaults use.1.id d).map (·.label.argument) = [some "y"]
        ∧ Deviation.argumentsOf .default t' = [some "x", some "y"])) = some true ∧ (do
      let f ← (Forest.ofModel refinedDefaultExpansion.model).toOption
      return decide (f.map (fun tree => (tree.statements .leafList).map
        (Deviation.argumentsOf .default)) = [[[some "x", some "y"]]])) = some true := by
    decide +kernel
  refine ⟨DeclaredModel.ofSources_eq_ofLinkage (by cbv) rfl (by cbv) hdeclare, ?_, ?_⟩
  · obtain ⟨⟨source, uses, nodes⟩, hfirst, h⟩ := Option.bind_eq_some_iff.1 h
    obtain ⟨d, hd, h⟩ := Option.bind_eq_some_iff.1 h
    obtain ⟨nodes', hnodes', h⟩ := Option.bind_eq_some_iff.1 h
    obtain ⟨steps, hsteps, h⟩ := Option.bind_eq_some_iff.1 h
    obtain ⟨address, haddress, h⟩ := Option.bind_eq_some_iff.1 h
    obtain ⟨t, ht, h⟩ := Option.bind_eq_some_iff.1 h
    obtain ⟨t', ht', h⟩ := Option.bind_eq_some_iff.1 h
    obtain ⟨hkind, hstated, hleft⟩ := of_decide_eq_true (Option.some.inj h)
    exact ⟨source, uses, nodes, d, nodes', address, t, t', hfirst, List.mem_of_mem_head? hd,
      Result.eq_ok_of_toOption hnodes', ⟨steps, hsteps, Node.leads_iff.2 ⟨haddress, ht⟩⟩, hkind,
      hstated, ht', hleft⟩
  · obtain ⟨f, hf, h⟩ := Option.bind_eq_some_iff.1 hforest
    have hmap := of_decide_eq_true (Option.some.inj h)
    obtain ⟨tree, rfl, htree⟩ := List.map_eq_singleton_iff.1 hmap
    exact ⟨tree, Result.eq_ok_of_toOption hf, htree⟩

end Expansion

end YangSchema
