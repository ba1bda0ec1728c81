import YangSchema.Proofs.ForeignNodes
import YangSchema.Proofs.Relatives

/-!
# Paths and the nodes that they find

Looking up a path picks a module by its first name and then goes from child to child. So it finds a
node whose path it is (`SchemaNode.HasPath`), and going down this way finds every node of the data
tree again, provided that no step can go astray. That the first step leads into the module of the
node is a matter of all that has been done to the module: the data nodes at its top live in its own
namespace (`Forest.ForeignAreGrafted.top`), whatever stands below them.
-/

namespace YangSchema

theorem find?_eq_some_of_unique {α : Type} {p : α → Bool} {as : List α} {a : α} (ha : a ∈ as)
    (hp : p a = true) (hunique : ∀ x ∈ as, p x = true → x = a) : as.find? p = some a := by
  obtain ⟨x, hx⟩ := Option.isSome_iff_exists.1 (List.find?_isSome.2 ⟨a, ha, hp⟩)
  rw [hx, hunique x (List.mem_of_find?_eq_some hx) (List.find?_some hx)]

/-- The first element of a value is the one that has it, where no other does. -/
theorem find?_eq_some_of_nodup {α β : Type} [DecidableEq β] {f : α → Option β} {as : List α} {a : α}
    {b : β} (hnodup : (as.filterMap f).Nodup) (ha : a ∈ as) (hb : f a = some b) :
    as.find? (fun x => f x == some b) = some a := by
  induction as with
  | nil => exact absurd ha List.not_mem_nil
  | cons x as ih =>
    by_cases hx : f x = some b
    · simp only [List.find?_cons, hx, beq_self_eq_true]
      rcases List.mem_cons.1 ha with rfl | ha
      · rfl
      · rw [List.filterMap_cons_some hx, List.nodup_cons] at hnodup
        exact absurd (List.mem_filterMap.2 ⟨a, ha, hb⟩) hnodup.1
    · simp only [List.find?_cons, beq_false_of_ne hx]
      refine ih (hnodup.sublist ((List.sublist_cons_self x as).filterMap f)) ?_
      exact (List.mem_cons.1 ha).resolve_left fun h => hx (h ▸ hb)

namespace SchemaNode

variable {m : Module} {n c p root : SchemaNode} {q : QName} {path path' rest : List QName}

/-! ## The path of a node -/

/-- The qualified names on the way from the top of its module to a node. -/
inductive HasPath : SchemaNode → List QName → Prop where
  | top {n root : SchemaNode} {q : QName} (hparent : n.parent? = some root)
      (hroot : root.parent? = none) (hq : n.qname? = some q) : HasPath n [q]
  | step {n p : SchemaNode} {q : QName} {path : List QName} (hparent : n.parent? = some p)
      (hpath : HasPath p path) (hq : n.qname? = some q) : HasPath n (path ++ [q])

/-- A node stands above another one. -/
def IsAbove (a n : SchemaNode) : Prop :=
  Relation.TransGen (fun p c : SchemaNode => c.parent? = some p) a n

theorem IsAbove.mem_allNodes {a : SchemaNode} (h : a.IsAbove n) (htable : Tree.IsTable m.nodes)
    (hn : n ∈ m.allNodes) : a ∈ m.allNodes := by
  induction h with
  | single hparent => exact ((parent?_eq_some_iff htable hn).1 hparent).1
  | tail _ hparent ih => exact ih ((parent?_eq_some_iff htable hn).1 hparent).1

theorem HasPath.exists_parent (h : n.HasPath path) : ∃ p, n.parent? = some p := by
  cases h with
  | top hparent => exact ⟨_, hparent⟩
  | step hparent => exact ⟨_, hparent⟩

theorem HasPath.exists_qname (h : n.HasPath path) : ∃ q, n.qname? = some q := by
  cases h with
  | top _ _ hq => exact ⟨_, hq⟩
  | step _ _ hq => exact ⟨_, hq⟩

theorem HasPath.ne_nil (h : n.HasPath path) : path ≠ [] := by
  cases h with
  | top => exact List.cons_ne_nil _ _
  | step => exact List.append_ne_nil_of_right_ne_nil _ (List.cons_ne_nil _ _)

/-- A node has one path at most. -/
theorem HasPath.unique (h : n.HasPath path) (h' : n.HasPath path') : path = path' := by
  induction h generalizing path' with
  | top hparent hroot hq =>
    cases h' with
    | top _ _ hq' =>
      cases hq.symm.trans hq'
      rfl
    | step hparent' hpath =>
      cases hparent.symm.trans hparent'
      obtain ⟨_, h⟩ := hpath.exists_parent
      cases hroot.symm.trans h
  | step hparent hpath hq ih =>
    cases h' with
    | top hparent' hroot =>
      cases hparent.symm.trans hparent'
      obtain ⟨_, h⟩ := hpath.exists_parent
      cases hroot.symm.trans h
    | step hparent' hpath' hq' =>
      cases hparent.symm.trans hparent'
      cases hq.symm.trans hq'
      rw [ih hpath']

/-- A node of the data tree has a path. -/
theorem exists_hasPath {name : NodeLabel → QName} {t : Node}
    (h : m.nodes = (NodeData.ofRoot name t).rows) (hn : n ∈ m.allNodes)
    (hdata : NodeData.InDataTree m.nodes n.row) : ∃ path, n.HasPath path := by
  have hlists := Module.lists_of_nodes_eq h
  have htable := hlists.table
  -- from the root downwards
  induction hid : n.id using Nat.strong_induction_on generalizing n with
  | _ i ih =>
    obtain ⟨rfl, hrow⟩ := Module.mem_allNodes.1 hn
    have hq := (hlists.qname n.row hrow _).2 ⟨hdata, rfl⟩
    rcases htable.parent_cases hrow with hfirst | ⟨p, hp, hlt⟩
    · exact absurd hfirst hdata.1
    · have hmem : ⟨n.module, p⟩ ∈ n.module.allNodes := Module.mem_allNodes.2 ⟨rfl, hp.1⟩
      have hparent : n.parent? = some ⟨n.module, p⟩ :=
        (parent?_eq_some_iff htable hn).2 ⟨hmem, (mem_children_iff htable hmem).2 ⟨hn, hp⟩⟩
      rw [h] at hp hdata
      rcases ((NodeData.inDataTree_iff hp).1 hdata).1 with hroot | hdata
      · exact ⟨_, .top hparent ((parent?_eq_none_iff htable hmem).2 hroot) hq⟩
      · rw [← h] at hdata
        obtain ⟨path, hpath⟩ := ih p.id (hid ▸ hlt) hmem hdata rfl
        exact ⟨_, .step hparent hpath hq⟩

end SchemaNode

/-! ## Going down -/

namespace Module

variable {m : Module} {n root : SchemaNode}

/-- The nodes at the top are the children of the root. -/
theorem topNodes_eq (hroot : m.node? 0 = some root) : m.topNodes = root.children := by
  obtain ⟨row, hrow, rfl⟩ := Option.map_eq_some_iff.1 hroot
  rw [topNodes, List.head?_eq_getElem?, hrow]
  rfl

/-- They are those whose parent has none. -/
theorem mem_topNodes_iff (h : Tree.IsTable m.nodes) : n ∈ m.topNodes
    ↔ n ∈ m.allNodes ∧ ∃ root, n.parent? = some root ∧ root.parent? = none := by
  constructor
  · intro hn
    cases hnode : m.node? 0 with
    | none =>
      rw [node?, ← List.head?_eq_getElem?, Option.map_eq_none_iff] at hnode
      rw [topNodes, hnode] at hn
      exact absurd hn List.not_mem_nil
    | some root =>
      obtain ⟨hroot, hid⟩ := (node?_eq_some_iff h).1 hnode
      rw [topNodes_eq hnode] at hn
      obtain ⟨hmem, hparent⟩ := SchemaNode.parent?_of_mem_children h hroot hn
      exact ⟨hmem, root, hparent, (SchemaNode.parent?_eq_none_iff h hroot).2 hid⟩
  · rintro ⟨hn, root, hparent, hnone⟩
    obtain ⟨hroot, hchild⟩ := (SchemaNode.parent?_eq_some_iff h hn).1 hparent
    have hid := (SchemaNode.parent?_eq_none_iff h hroot).1 hnone
    rw [topNodes_eq ((node?_eq_some_iff h).2 ⟨hroot, hid⟩)]
    exact hchild

end Module

namespace Schema

variable {schema : Schema} {m : Module} {n c : SchemaNode} {q : QName} {path rest : List QName}

/-- A longer path goes on where a shorter one ends. -/
theorem descend?_append : descend? n (path ++ rest) = (descend? n path).bind (descend? · rest) :=
  List.foldlM_append

theorem descend?_singleton : descend? n [q] = n.child? q := bind_pure (n.child? q)

theorem findPath?_cons : schema.findPath? (q :: rest)
    = (schema.findPath? [q]).bind (descend? · rest) := by
  simp only [findPath?, Option.bind_eq_bind, Option.bind_assoc]
  rfl

theorem findPath?_concat (hne : path ≠ []) :
    schema.findPath? (path ++ [q]) = (schema.findPath? path).bind (·.child? q) := by
  obtain ⟨a, rest, rfl⟩ := List.exists_cons_of_ne_nil hne
  have hshorter : schema.findPath? (a :: rest) = _ := findPath?_cons
  rw [List.cons_append, findPath?_cons, hshorter, Option.bind_assoc]
  refine congrArg _ (funext fun n => ?_)
  rw [descend?_append]
  exact congrArg _ (funext fun x => descend?_singleton)

/-- What is found by going down from a node has the path of the node, and behind it the names on the
way. -/
theorem hasPath_of_descend? (h : Tree.IsTable m.nodes) (hn : n ∈ m.allNodes)
    (hpath : n.HasPath path) (hc : descend? n rest = some c) :
    c ∈ m.allNodes ∧ c.HasPath (path ++ rest) := by
  induction rest using List.reverseRecOn generalizing c with
  | nil =>
    cases hc
    rw [List.append_nil]
    exact ⟨hn, hpath⟩
  | append_singleton rest q ih =>
    rw [descend?_append] at hc
    obtain ⟨p, hp, hc⟩ := Option.bind_eq_some_iff.1 hc
    obtain ⟨hmem, hppath⟩ := ih hp
    rw [descend?_singleton] at hc
    obtain ⟨hcmem, hparent⟩ :=
      SchemaNode.parent?_of_mem_children h hmem (List.mem_of_find?_eq_some hc)
    rw [← List.append_assoc]
    exact ⟨hcmem, .step hparent hppath (by simpa using List.find?_some hc)⟩

/-- A path that is found is the path of what it finds. -/
theorem hasPath_of_findPath? (h : schema.HasTables) (hn : schema.findPath? path = some n) :
    ∃ m ∈ schema.modules, n ∈ m.allNodes ∧ n.HasPath path := by
  cases path with
  | nil => cases hn
  | cons q rest =>
    obtain ⟨m, hm, hn⟩ := Option.bind_eq_some_iff.1 hn
    obtain ⟨top, htop, hn⟩ := Option.bind_eq_some_iff.1 hn
    have hmem := List.mem_of_find?_eq_some hm
    obtain ⟨hn', root, hparent, hroot⟩ := (Module.mem_topNodes_iff (h m hmem)).1
      (List.mem_of_mem_filter (List.mem_of_find?_eq_some htop))
    have hq : top.qname? = some q := by simpa using List.find?_some htop
    exact ⟨m, hmem, hasPath_of_descend? (h m hmem) hn' (.top hparent hroot hq) hn⟩

/-- A path finds the node that has it, if its first name leads to the module of the node and no
other child of a node on the way has the name of a step. -/
theorem findPath?_of_hasPath (h : schema.HasTables) (hm : m ∈ schema.modules)
    (honly : ∀ m' ∈ schema.modules, m'.uri = m.uri → m'.id.revision = m.id.revision → m' = m)
    (hhome : ∀ top ∈ m.topNodes, ∀ q, top.qname? = some q →
      q.uri = m.uri ∧ q.revision = m.id.revision)
    (hn : n ∈ m.allNodes) (hpath : n.HasPath path)
    (hdistinct : ∀ a : SchemaNode, a.IsAbove n → (a.children.filterMap SchemaNode.qname?).Nodup) :
    schema.findPath? path = some n := by
  induction hpath with
  | @top n root q hparent hroot hq =>
    have htop := (Module.mem_topNodes_iff (h m hm)).2 ⟨hn, root, hparent, hroot⟩
    obtain ⟨huri, hrevision⟩ := hhome n htop q hq
    have hmodule : (schema.modules.find? fun m' => m'.uri == q.uri && m'.id.revision == q.revision)
        = some m := by
      rw [huri, hrevision]
      exact find?_eq_some_of_unique hm (by simp) fun m' hm' h' => by
        simp only [Bool.and_eq_true, beq_iff_eq] at h'
        exact honly m' hm' h'.1 h'.2
    have hfirst : (m.dataChildren.find? fun x => x.qname? == some q) = some n := by
      have hroot' := (SchemaNode.parent?_eq_some_iff (h m hm) hn).1 hparent
      have hid := (SchemaNode.parent?_eq_none_iff (h m hm) hroot'.1).1 hroot
      have htops := Module.topNodes_eq ((Module.node?_eq_some_iff (h m hm)).2 ⟨hroot'.1, hid⟩)
      have hnodup := hdistinct root (.single hparent)
      rw [← htops] at hnodup
      exact find?_eq_some_of_nodup (hnodup.sublist (List.filter_sublist.filterMap _))
        (List.mem_filter.2 ⟨htop, Option.isSome_of_eq_some hq⟩) hq
    rw [findPath?, hmodule]
    show (m.dataChildren.find? _).bind _ = _
    rw [hfirst]
    rfl
  | @step n p q path hparent hpath hq ih =>
    obtain ⟨hp, hchild⟩ := (SchemaNode.parent?_eq_some_iff (h m hm) hn).1 hparent
    rw [findPath?_concat hpath.ne_nil, ih hp fun a ha => hdistinct a (.tail ha hparent)]
    exact find?_eq_some_of_nodup (hdistinct p (.single hparent)) hchild hq

/-! ## Built schemas -/

theorem hasTables_of_ofModel {model : DeclaredModel} (built : ofModel model = .ok schema) :
    schema.HasTables := by
  obtain ⟨f, g, k, _, _, _, rfl⟩ := ofModel_eq_ok.1 built
  exact hasTables_ofForest model k

/-- The data nodes at the top of the module of a tree have its namespace and its revision, if those
of the tree live in the module. -/
theorem qname_of_topNodes {model : DeclaredModel} {t : ModuleTree}
    (hhome : ∀ c ∈ t.root.children, c.label.isSchemaNode = true → c.label.module = t.id)
    (hn : n ∈ (Module.ofTree model t).topNodes) (hq : n.qname? = some q) :
    q.uri = (Module.ofTree model t).uri ∧ q.revision = (Module.ofTree model t).id.revision := by
  have hlists := Module.lists_of_nodes_eq (m := Module.ofTree model t) rfl
  obtain ⟨hmem, root, hparent, hnone⟩ := (Module.mem_topNodes_iff hlists.table).1 hn
  obtain ⟨hroot, hchild⟩ := (SchemaNode.parent?_eq_some_iff hlists.table hmem).1 hparent
  have hid : root.row.id = 0 := (SchemaNode.parent?_eq_none_iff hlists.table hroot).1 hnone
  obtain ⟨hdata, rfl⟩ := (hlists.qname n.row (Module.mem_allNodes.1 hmem).2 q).1 hq
  obtain ⟨x, c, hc, _, hlabel, hx⟩ := Tree.exists_child_of_parent
    ((SchemaNode.mem_children_iff hlists.table hroot).1 hchild).2
  rw [if_pos hid] at hx
  subst hx
  rw [NodeData.ofRoot_eq] at hc
  obtain ⟨d, hd, rfl⟩ := List.mem_map.1 hc
  have hlabel' : n.row.label.toNodeLabel = d.label := by
    rw [hlabel, NodeData.ofNode_eq]
  have hmodule := hhome d hd (hlabel' ▸ hdata.2.1)
  rw [hlabel', NodeData.qnameOf, hmodule]
  exact ⟨rfl, rfl⟩

variable {order : Bool} {sources : List Source} {model : DeclaredModel}

/-- The data nodes at the top of the tree of a module live in it. -/
theorem module_of_top {f g k : Forest}
    (declared : DeclaredModel.ofSources order sources = .ok model)
    (instantiated : Forest.ofModel model = .ok f)
    (haugments : Augmentation.applyAll model f = .ok g)
    (hdeviations : Deviation.applyAll model g = .ok k) {t : ModuleTree} (ht : t ∈ k) {c : Node}
    (hc : c ∈ t.root.children) (hname : c.label.isSchemaNode = true) : c.label.module = t.id := by
  obtain ⟨γs, haccounts⟩ :=
    Augmentation.exists_accounts_of_applyAll declared instantiated haugments
  obtain ⟨σ, hσ⟩ :=
    Deviation.exists_leavesData_of_applyAll declared instantiated haugments hdeviations
  have hforeign :=
    (Forest.foreignAreGrafted_augmented declared instantiated haugments haccounts).leaves hσ
  have hstage := (Deviation.stage_of_ofModel declared instantiated haugments hdeviations).2
  have distinct : (k.map (·.id)).Nodup := by
    rw [hstage.map_id]
    exact Augmentation.nodup_of_ofModel declared instantiated
  obtain ⟨i, hi⟩ := List.mem_iff_getElem?.1 hc
  refine hforeign.top t.id i c.label (.top ?_ hname)
  rw [Forest.labelAt?, Forest.node?, Forest.root?_of_mem distinct ht]
  show (t.root.subtree? [i]).map Tree.label = _
  rw [Tree.subtree?_cons, hi]
  rfl

/-- **Looking up a path inverts going up from a node.** In a schema a path that is found is that of
the node which it finds: the qualified names of the nodes above it, from the top of its module, and
its own. The other way round every node of the data tree has one path. It is found by this path if
its module is the only one of its namespace and revision, and no node above it, the root included,
has two children of the same qualified name, whatever modules the nodes on the way come from. -/
theorem find_path_inverts (declared : DeclaredModel.ofSources order sources = .ok model)
    (built : ofModel model = .ok schema) :
    (∀ path n, schema.findPath? path = some n → ∃ m ∈ schema.modules, n ∈ m.allNodes
      ∧ NodeData.InDataTree m.nodes n.row ∧ n.HasPath path)
    ∧ ∀ m ∈ schema.modules, ∀ n ∈ m.allNodes, NodeData.InDataTree m.nodes n.row →
      ∃ path, (∀ path', n.HasPath path' ↔ path' = path)
        ∧ ((∀ m' ∈ schema.modules, m'.uri = m.uri → m'.id.revision = m.id.revision → m' = m) →
          (∀ a : SchemaNode, a.IsAbove n → (a.children.filterMap SchemaNode.qname?).Nodup) →
          schema.findPath? path = some n) := by
  obtain ⟨f, g, k, instantiated, haugments, hdeviations, rfl⟩ := ofModel_eq_ok.1 built
  have htables := hasTables_ofForest model k
  refine ⟨fun path n hn => ?_, fun m hm n hn hdata => ?_⟩
  · obtain ⟨m, hm, hmem, hpath⟩ := hasPath_of_findPath? htables hn
    obtain ⟨t, _, rfl⟩ := List.mem_map.1 hm
    obtain ⟨q, hq⟩ := hpath.exists_qname
    have hlists := Module.lists_of_nodes_eq (m := Module.ofTree model t) rfl
    exact ⟨_, hm, hmem, ((hlists.qname n.row (Module.mem_allNodes.1 hmem).2 q).1 hq).1, hpath⟩
  · obtain ⟨t, ht, rfl⟩ := List.mem_map.1 hm
    obtain ⟨path, hpath⟩ := SchemaNode.exists_hasPath rfl hn hdata
    refine ⟨path, fun path' => ⟨fun h => h.unique hpath, fun h => h ▸ hpath⟩, ?_⟩
    intro honly hdistinct
    refine findPath?_of_hasPath htables hm honly (fun top htop q hq => ?_) hn hpath hdistinct
    exact qname_of_topNodes
      (fun c hc => module_of_top declared instantiated haugments hdeviations ht hc) htop hq

/-- The path to the leaf that `b` adds to the container of `a`. -/
def foreignPath : List QName := [⟨"a", none, "c"⟩, ⟨"b", none, "y"⟩]

/-- The path finds the leaf, whose path it is. -/
theorem find_path_inverts_foreign : ∃ schema n, ofModel foreignModel = .ok schema
    ∧ schema.findPath? foreignPath = some n ∧ (∀ path, n.HasPath path ↔ path = foreignPath)
    ∧ ∃ m ∈ schema.modules, n ∈ m.allNodes
      ∧ (∀ m' ∈ schema.modules, m'.uri = m.uri → m'.id.revision = m.id.revision → m' = m)
      ∧ NodeData.InDataTree m.nodes n.row
      ∧ ∀ a : SchemaNode, a.IsAbove n → (a.children.filterMap SchemaNode.qname?).Nodup := by
  have h : (ofModel foreignModel).map (fun schema =>
      decide ((schema.modules.map fun m => (m.uri, m.id.revision)).Nodup)
        && (schema.findPath? foreignPath).isSome
        && schema.modules.all fun m => m.allNodes.all fun n =>
          decide (n.children.filterMap SchemaNode.qname?).Nodup) = .ok true := by
    decide +kernel
  cases built : ofModel foreignModel with
  | error _ =>
    rw [built] at h
    cases h
  | ok schema =>
    rw [built] at h
    obtain ⟨h, hdistinct⟩ := Bool.and_eq_true_iff.1 (Except.ok.inj h)
    obtain ⟨hmodules, hfound⟩ := Bool.and_eq_true_iff.1 h
    obtain ⟨n, hn⟩ := Option.isSome_iff_exists.1 hfound
    obtain ⟨hfind, hpaths⟩ := find_path_inverts ofSources_foreignModules built
    obtain ⟨m, hm, hmem, hdata, hpath⟩ := hfind foreignPath n hn
    obtain ⟨path, hiff, hfinds⟩ := hpaths m hm n hmem hdata
    cases (hiff foreignPath).1 hpath
    have honly : ∀ m' ∈ schema.modules, m'.uri = m.uri → m'.id.revision = m.id.revision →
        m' = m := fun m' hm' huri hrevision =>
      List.inj_on_of_nodup_map (of_decide_eq_true hmodules) hm' hm (Prod.ext huri hrevision)
    have hapart : ∀ a : SchemaNode, a.IsAbove n →
        (a.children.filterMap SchemaNode.qname?).Nodup := by
      intro a ha
      have hall := List.all_eq_true.1 (List.all_eq_true.1 hdistinct m hm) a
        (ha.mem_allNodes (hasTables_of_ofModel built m hm) hmem)
      exact of_decide_eq_true hall
    exact ⟨schema, n, rfl, hfinds honly hapart, hiff, m, hm, hmem, honly, hdata, hapart⟩

end Schema

end YangSchema
