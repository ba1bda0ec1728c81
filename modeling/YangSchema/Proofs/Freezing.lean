import Mathlib.Data.List.Perm.Subperm
import YangSchema.Proofs.ModuleArena
import YangSchema.Schema.Query

/-!
# The nodes of a schema

The nodes of a module are numbered as its tree has them in preorder (`Module.lists_of_nodes_eq`), so
what stands below a node is a block behind it, which a traversal goes through. The nodes that have
names are those of the data tree (`NodeData.qname_eq_some_iff`): the name of a node hangs on that of
its parent. The nodes of a name are found through an index of all modules (`Schema.findNodes_eq`).

A module that is kept in an arena is copied cell by cell, each row before those of its children
(`Arena.copyInto`). What is copied is the tree that is reached from the root
(`Arena.Reached.exists_freeze`), and nothing else.
-/

namespace YangSchema

namespace NodeData

variable {name : NodeLabel → QName} {inData : Bool} {n : Node} {x c : Tree NodeData}

/-! ## Names -/

theorem ofNodes_eq (name : NodeLabel → QName) (inData : Bool) (ns : List Node) :
    ofNodes name inData ns = ns.map (ofNode name inData) := by
  induction ns with
  | nil => rfl
  | cons n ns ih => rw [ofNodes, ih, List.map_cons]

theorem ofNode_eq (name : NodeLabel → QName) (inData : Bool) (n : Node) :
    ofNode name inData n
      = ⟨⟨n.label, if inData && n.label.isSchemaNode then some (name n.label) else none⟩,
          n.children.map (ofNode name (inData && n.label.isSchemaNode))⟩ := by
  obtain ⟨l, children⟩ := n
  rw [ofNode, ofNodes_eq]

theorem ofRoot_eq (name : NodeLabel → QName) (n : Node) :
    ofRoot name n = ⟨⟨n.label, none⟩, n.children.map (ofNode name true)⟩ := by
  rw [ofRoot, ofNodes_eq]

/-- Naming keeps the labels. -/
theorem map_ofNode (name : NodeLabel → QName) (inData : Bool) (n : Node) :
    (ofNode name inData n).map NodeData.toNodeLabel = n := by
  induction n using Tree.induct generalizing inData with
  | step n ih =>
    rw [ofNode_eq, Tree.map, Tree.mapForest_eq, List.map_map]
    obtain ⟨l, children⟩ := n
    exact congrArg (Tree.mk l) ((List.map_congr_left fun c hc => ih c hc _).trans (List.map_id' _))

theorem map_ofRoot (name : NodeLabel → QName) (n : Node) :
    (ofRoot name n).map NodeData.toNodeLabel = n := by
  rw [ofRoot_eq, Tree.map, Tree.mapForest_eq, List.map_map]
  obtain ⟨l, children⟩ := n
  exact congrArg (Tree.mk l)
    ((List.map_congr_left fun c _ => map_ofNode name true c).trans (List.map_id' _))

/-- A node has a name if it is a schema node and its parent has one. -/
theorem qname_of_child (hx : x ∈ (ofNode name inData n).subtrees) (hc : c ∈ x.children) :
    c.label.qname = if x.label.qname.isSome && c.label.isSchemaNode
      then some (name c.label.toNodeLabel) else none := by
  induction n using Tree.induct generalizing inData with
  | step n ih =>
    rw [ofNode_eq] at hx
    rcases Tree.mem_subtrees.1 hx with rfl | ⟨d, hd, hx⟩
    · obtain ⟨m, _, rfl⟩ := List.mem_map.1 hc
      rw [ofNode_eq]
      dsimp only
      cases inData && n.label.isSchemaNode <;> rfl
    · obtain ⟨m, hm, rfl⟩ := List.mem_map.1 hd
      exact ih m hm hx

/-- A row has a name if it is that of a schema node and its parent has a name or is the root. -/
theorem qname_of_row {q r : Tree.Row NodeData}
    (h : Tree.IsParentRow (ofRoot name n).rows q r) :
    r.label.qname = if (q.id == 0 || q.label.qname.isSome) && r.label.isSchemaNode
      then some (name r.label.toNodeLabel) else none := by
  obtain ⟨x, c, hc, hlabel, hlabel', hx⟩ := Tree.exists_child_of_parent h
  rw [hlabel, hlabel']
  split at hx
  · rename_i hid
    subst hx
    rw [ofRoot_eq] at hc
    obtain ⟨m, _, rfl⟩ := List.mem_map.1 hc
    rw [hid, ofNode_eq]
    rfl
  · rename_i hid
    obtain ⟨d, hd, hx⟩ := hx
    rw [ofRoot_eq] at hd
    obtain ⟨m, _, rfl⟩ := List.mem_map.1 hd
    rw [qname_of_child hx hc, beq_false_of_ne hid, Bool.false_or]

/-- A node and all that stands above it, the root apart, are schema nodes. -/
def InDataTree (rows : List (Tree.Row NodeData)) (r : Tree.Row NodeData) : Prop :=
  r.id ≠ 0 ∧ r.label.isSchemaNode = true
    ∧ ∀ p, Relation.TransGen (Tree.IsParentRow rows) p r → p.id ≠ 0 → p.label.isSchemaNode = true

/-- A node is in the data tree if it is a schema node and its parent is in it or is the root. -/
theorem inDataTree_iff {t : Tree NodeData} {p r : Tree.Row NodeData}
    (hp : Tree.IsParentRow t.rows p r) : InDataTree t.rows r
      ↔ (p.id = 0 ∨ InDataTree t.rows p) ∧ r.label.isSchemaNode = true := by
  have htable := Tree.isTable_rows t
  have hchild := (htable.parent_iff p hp.1 r hp.2.1).1 hp.2.2
  have hlt : p.id < r.id := List.rel_of_pairwise_cons (htable.ascending p hp.1) hchild
  have hne : r.id ≠ 0 := Nat.ne_zero_of_lt hlt
  unfold InDataTree
  simp only [Tree.transGen_iff hp, forall_eq_or_imp]
  constructor
  · rintro ⟨_, hr, hself, habove⟩
    refine ⟨?_, hr⟩
    by_cases hfirst : p.id = 0
    · exact .inl hfirst
    · exact .inr ⟨hfirst, hself hfirst, habove⟩
  · rintro ⟨hfirst | ⟨hfirst, hself, habove⟩, hr⟩
    -- nothing stands above the root
    · refine ⟨hne, hr, fun h => absurd hfirst h, fun y hy => ?_⟩
      obtain ⟨z, _, hz⟩ := Relation.TransGen.tail'_iff.1 hy
      exact nomatch ((htable.parent_eq_none p hp.1).2 hfirst).symm.trans hz.2.2
    · exact ⟨hne, hr, fun _ => hself, habove⟩

/-- The nodes of the data tree have names, and no others. -/
theorem qname_eq_some_iff {r : Tree.Row NodeData} (hr : r ∈ (ofRoot name n).rows) {q : QName} :
    r.label.qname = some q
      ↔ InDataTree (ofRoot name n).rows r ∧ q = name r.label.toNodeLabel := by
  -- from the root downwards
  induction hid : r.id using Nat.strong_induction_on generalizing r q with
  | _ k ih =>
    rcases (Tree.isTable_rows (ofRoot name n)).parent_cases hr with hfirst | ⟨p, hp, hlt⟩
    · have hroot := (Tree.hasAt_rows (ofRoot name n)).getElem?
      rw [← hfirst, Tree.getElem?_rows hr] at hroot
      refine iff_of_false (fun h => ?_) fun h => h.1.1 hfirst
      rw [Option.some.inj hroot, ofRoot_eq] at h
      cases h
    · have hparent : p.label.qname.isSome = true ↔ InDataTree (ofRoot name n).rows p := by
        rw [Option.isSome_iff_exists]
        simp only [ih p.id (hid ▸ hlt) hp.1 rfl, exists_and_left, exists_eq, and_true]
      rw [qname_of_row hp, inDataTree_iff hp, ← hparent, Option.ite_none_right_eq_some,
        Bool.and_eq_true, Bool.or_eq_true, beq_iff_eq, Option.some.injEq, eq_comm (a := q)]

end NodeData

namespace SchemaNode

variable {m : Module} {n x : SchemaNode}

/-! ## What stands below a node -/

/-- Takes node after node from a stack, the top first, and puts the children of each on it. -/
def walk : Nat → List SchemaNode → List SchemaNode
  | 0, _ => []
  | _ + 1, [] => []
  | fuel + 1, n :: stack => n :: walk fuel (n.children ++ stack)

theorem children_eq (m : Module) (r : Tree.Row NodeData) : (⟨m, r⟩ : SchemaNode).children
    = (Tree.childRows m.nodes r).map fun row => ⟨m, row⟩ := by
  show List.filterMap m.node? r.children = _
  rw [Tree.childRows, List.map_filterMap]
  rfl

theorem walk_eq (m : Module) (fuel : Nat) (stack : List (Tree.Row NodeData)) :
    walk fuel (stack.map fun row => ⟨m, row⟩)
      = (Tree.walk m.nodes fuel stack).map fun row => ⟨m, row⟩ := by
  induction fuel generalizing stack with
  | zero => rfl
  | succ fuel ih =>
    cases stack with
    | nil => rfl
    | cons r stack =>
      rw [List.map_cons, walk, Tree.walk, List.map_cons, children_eq, ← List.map_append, ih]

end SchemaNode

/-- The nodes of a module are those of a tree, in preorder. -/
structure Module.Lists (name : NodeLabel → QName) (root : Node) (m : Module) : Prop where
  /-- Node `i` has the number `i`, and parents and children agree. -/
  table : Tree.IsTable m.nodes
  labels : m.nodes.map (·.label.toNodeLabel) = root.preorder
  /-- What stands below a node is a block behind it. -/
  block : ∀ r ∈ m.nodes, ∃ size,
    (SchemaNode.mk m r).descendants.map SchemaNode.id = List.range' (r.id + 1) size
  below : ∀ r ∈ m.nodes, ∀ y : SchemaNode, y ∈ (SchemaNode.mk m r).descendants
    ↔ y.module = m ∧ Relation.TransGen (Tree.IsParentRow m.nodes) r y.row
  /-- A traversal that starts with the children of a node finds the same. -/
  traversal : ∀ r ∈ m.nodes, ∀ fuel, m.count ≤ fuel →
    SchemaNode.walk fuel (SchemaNode.mk m r).children = (SchemaNode.mk m r).descendants
  qname : ∀ r ∈ m.nodes, ∀ q, r.label.qname = some q
    ↔ NodeData.InDataTree m.nodes r ∧ q = name r.label.toNodeLabel

namespace Module

variable {m : Module} {name : NodeLabel → QName} {root : Node}

/-- What stands below a node, read from the table of a tree. -/
theorem exists_descendants {t : Tree NodeData} (h : m.nodes = t.rows) {r : Tree.Row NodeData}
    (hr : r ∈ t.rows) : ∃ x, Tree.HasAt t.rows r.id r.parent x ∧ r = x.headRow r.id r.parent
      ∧ (SchemaNode.mk m r).descendants
        = (Tree.forestRowsFrom (r.id + 1) (some r.id) x.children).map (SchemaNode.mk m) := by
  obtain ⟨x, hat, hrow, _⟩ := (Tree.hasAt_rows t).exists_of_mem hr
  refine ⟨x, hat, hrow, ?_⟩
  rw [← hat.takeWhile_drop, ← h]
  rfl

/-- A module whose table is that of the named nodes lists them. -/
theorem lists_of_nodes_eq (h : m.nodes = (NodeData.ofRoot name root).rows) :
    m.Lists name root where
  table := h ▸ Tree.isTable_rows _
  labels := by
    have hlabels := congrArg Tree.preorder (NodeData.map_ofRoot name root)
    rw [Tree.preorder_map, ← Tree.map_label_rowsFrom 0 none, List.map_map] at hlabels
    rw [h]
    exact hlabels
  block r hr := by
    obtain ⟨x, _, _, hbelow⟩ := exists_descendants h (h ▸ hr)
    refine ⟨Tree.forestSize x.children, ?_⟩
    rw [hbelow, List.map_map]
    exact Tree.map_id_forestRowsFrom _ _ _
  below r hr y := by
    obtain ⟨x, hat, hrow, hbelow⟩ := exists_descendants h (h ▸ hr)
    have hiff : y.row ∈ Tree.forestRowsFrom (r.id + 1) (some r.id) x.children
        ↔ Relation.TransGen (Tree.IsParentRow (NodeData.ofRoot name root).rows) r y.row :=
      hrow ▸ hat.mem_below_iff
    rw [hbelow, h, ← hiff, List.mem_map]
    constructor
    · rintro ⟨row, hmem, rfl⟩
      exact ⟨rfl, hmem⟩
    · rintro ⟨rfl, hmem⟩
      exact ⟨y.row, hmem, rfl⟩
  traversal r hr fuel hfuel := by
    obtain ⟨x, hat, hrow, hbelow⟩ := exists_descendants h (h ▸ hr)
    have hwalk : Tree.walk (NodeData.ofRoot name root).rows fuel
          (Tree.childRows (NodeData.ofRoot name root).rows r)
        = Tree.forestRowsFrom (r.id + 1) (some r.id) x.children :=
      hrow ▸ hat.walk_childRows (h ▸ hfuel)
    rw [hbelow, SchemaNode.children_eq, SchemaNode.walk_eq, h, hwalk]
  qname r hr q := by
    rw [h] at hr ⊢
    exact NodeData.qname_eq_some_iff hr

end Module

/-! ## The index of names -/

namespace Schema

/-- Adds a node of the module at a position to the places of its name. -/
def addPlace (position : Nat) (index : QName → List (Nat × Nat)) (r : Tree.Row NodeData) :
    QName → List (Nat × Nat) :=
  match r.label.qname with
  | some q => Function.update index q (index q ++ [(position, r.id)])
  | none => index

/-- The places of the nodes of each name: the position of a module and the number of a node in it.
The modules are gone through in their order, and the nodes of each in theirs. -/
def index (s : Schema) : QName → List (Nat × Nat) :=
  s.modules.zipIdx.foldl (fun index m => m.1.nodes.foldl (addPlace m.2) index) fun _ => []

/-- The node at a place. -/
def nodeAt? (s : Schema) (place : Nat × Nat) : Option SchemaNode :=
  s.modules[place.1]?.bind (·.node? place.2)

variable {s : Schema} {q : QName}

theorem addPlace_apply (position : Nat) (index : QName → List (Nat × Nat)) (r : Tree.Row NodeData)
    (q : QName) : addPlace position index r q
      = index q ++ ([r].filter (·.label.qname == some q)).map fun r => (position, r.id) := by
  unfold addPlace
  cases hq : r.label.qname with
  | none => simp [hq]
  | some q' =>
    by_cases heq : q = q'
    · simp [hq, heq]
    · simp [hq, heq, Ne.symm heq]

theorem foldl_addPlace (position : Nat) (index : QName → List (Nat × Nat))
    (rows : List (Tree.Row NodeData)) (q : QName) : rows.foldl (addPlace position) index q
      = index q ++ (rows.filter (·.label.qname == some q)).map fun r => (position, r.id) := by
  induction rows generalizing index with
  | nil => rw [List.foldl_nil, List.filter_nil, List.map_nil, List.append_nil]
  | cons r rows ih =>
    rw [List.foldl_cons, ih, addPlace_apply, List.append_assoc, ← List.map_append,
      ← List.filter_append, List.singleton_append]

/-- The places of a name, module after module. -/
theorem index_eq (s : Schema) (q : QName) : s.index q = s.modules.zipIdx.flatMap fun m =>
    (m.1.nodes.filter (·.label.qname == some q)).map fun r => (m.2, r.id) := by
  have hfold : ∀ (ms : List (Module × Nat)) (index : QName → List (Nat × Nat)),
      ms.foldl (fun index m => m.1.nodes.foldl (addPlace m.2) index) index q
        = index q ++ ms.flatMap fun m =>
          (m.1.nodes.filter (·.label.qname == some q)).map fun r => (m.2, r.id) := by
    intro ms
    induction ms with
    | nil => exact fun index => (List.append_nil _).symm
    | cons m ms ih =>
      intro index
      rw [List.foldl_cons, ih, foldl_addPlace, List.flatMap_cons, List.append_assoc]
  exact hfold _ _

/-- Every module of a schema has a table of nodes. -/
def HasTables (s : Schema) : Prop := ∀ m ∈ s.modules, Tree.IsTable m.nodes

theorem nodeAt?_eq_some (h : s.HasTables) {position id : Nat} {n : SchemaNode} :
    s.nodeAt? (position, id) = some n
      ↔ s.modules[position]? = some n.module ∧ n.row ∈ n.module.nodes ∧ n.row.id = id := by
  unfold nodeAt? Module.node?
  rw [Option.bind_eq_some_iff]
  constructor
  · rintro ⟨m, hm, hn⟩
    obtain ⟨r, hr, rfl⟩ := Option.map_eq_some_iff.1 hn
    exact ⟨hm, List.mem_of_getElem? hr, (h m (List.mem_of_getElem? hm)).id_eq id r hr⟩
  · rintro ⟨hm, hr, rfl⟩
    obtain ⟨i, hi⟩ := List.mem_iff_getElem?.1 hr
    refine ⟨n.module, hm, Option.map_eq_some_iff.2 ⟨n.row, ?_, rfl⟩⟩
    rwa [(h n.module (List.mem_of_getElem? hm)).id_eq i n.row hi]

theorem mem_index_iff (h : s.HasTables) {place : Nat × Nat} : place ∈ s.index q
    ↔ ∃ n, s.nodeAt? place = some n ∧ n.qname? = some q := by
  obtain ⟨position, id⟩ := place
  simp only [index_eq, List.mem_flatMap, List.mem_map, List.mem_filter, beq_iff_eq,
    nodeAt?_eq_some h, Prod.mk.injEq]
  constructor
  · rintro ⟨⟨m, k⟩, hm, r, ⟨hr, hq⟩, rfl, rfl⟩
    exact ⟨⟨m, r⟩, ⟨List.mem_zipIdx_iff_getElem?.1 hm, hr, rfl⟩, hq⟩
  · rintro ⟨⟨m, r⟩, ⟨hm, hr, rfl⟩, hq⟩
    exact ⟨(m, position), List.mem_zipIdx_iff_getElem?.2 hm, r, ⟨hr, hq⟩, rfl, rfl⟩

/-- The rows of a table ascend. -/
theorem pairwise_id {rows : List (Tree.Row NodeData)} (h : Tree.IsTable rows) :
    rows.Pairwise fun r y => r.id < y.id := by
  refine List.pairwise_iff_getElem.2 fun i j hi hj hlt => ?_
  rw [h.id_eq i _ (List.getElem?_eq_getElem hi), h.id_eq j _ (List.getElem?_eq_getElem hj)]
  exact hlt

/-- The places of a name are in the order of the modules and, in each, of the nodes. -/
theorem pairwise_index (h : s.HasTables) (q : QName) :
    (s.index q).Pairwise (Prod.Lex (· < ·) (· < ·)) := by
  rw [index_eq, List.pairwise_flatMap]
  refine ⟨fun m hm => ?_, ?_⟩
  · refine List.pairwise_map.2 (((pairwise_id (h m.1 ?_)).sublist List.filter_sublist).imp ?_)
    · exact List.mem_of_getElem? (List.mem_zipIdx_iff_getElem?.1 hm)
    · exact fun hlt => .right _ hlt
  · have hpositions : (s.modules.zipIdx).Pairwise fun m m' => m.2 < m'.2 := by
      rw [← List.pairwise_map, List.zipIdx_map_snd]
      exact List.pairwise_lt_range'
    refine hpositions.imp fun hlt x hx y hy => ?_
    obtain ⟨_, _, rfl⟩ := List.mem_map.1 hx
    obtain ⟨_, _, rfl⟩ := List.mem_map.1 hy
    exact .left _ _ hlt

/-- The nodes of a name are those at its places. -/
theorem findNodes_eq (h : s.HasTables) (q : QName) :
    s.findNodes q = (s.index q).filterMap s.nodeAt? := by
  unfold findNodes
  rw [index_eq, List.filterMap_flatMap, ← List.zipIdx_map_fst 0 s.modules, List.flatMap_map,
    List.zipIdx_map_fst]
  refine List.flatMap_congr fun m hm => ?_
  have hm' := List.mem_zipIdx_iff_getElem?.1 hm
  rw [List.filterMap_map, Module.allNodes, List.filter_map]
  refine (List.filterMap_eq_map_iff_forall_eq_some.2 fun r hr => ?_).symm
  exact (nodeAt?_eq_some h).2 ⟨hm', (List.mem_filter.1 hr).1, rfl⟩

end Schema

/-! ## Copying from an arena -/

theorem Layout.node_eq (t : Layout) :
    t.node = ⟨t.label.2, t.children.map Layout.node⟩ := by
  obtain ⟨⟨i, l⟩, ts⟩ := t
  unfold Layout.node
  rw [Tree.map, Tree.mapForest_eq]

namespace Arena

variable {A : Arena} {name : NodeLabel → QName} {t : Layout} {ts : List Layout} {fuel : Nat}
  {inData : Bool} {out rest : List (Tree.Row NodeData)} {r : Tree.Row NodeData}

/-- Copies a cell and what is reached from it behind the rows that there are. The row of a cell
comes first; it gets its children as their rows are complete. `inData` says that the parent is in
the data tree. -/
def copyInto (name : NodeLabel → QName) (A : Arena) : Nat → Nat → Option Nat → Bool →
    List (Tree.Row NodeData) → Option (List (Tree.Row NodeData))
  | 0, _, _, _, _ => none
  | fuel + 1, i, parent, inData, out => do
    let c ← A[i]?
    let data := parent.isNone || (inData && c.label.isSchemaNode)
    let qname := if parent.isSome && data then some (name c.label) else none
    c.children.foldlM
      (fun rows j => (copyInto name A fuel j (some out.length) data rows).map fun next =>
        next.modify out.length (Tree.Row.addChild rows.length))
      (out ++ [⟨out.length, parent, [], ⟨c.label, qname⟩⟩])

/-- The table of what is reached from the root. -/
def freeze (name : NodeLabel → QName) (A : Arena) : Option (List (Tree.Row NodeData)) :=
  copyInto name A A.length 0 none true []

/-- One cell is copied with the copies of its children. -/
theorem copyInto_succ (h : A.Keeps t) (parent : Option Nat)
    (hcopy : ∀ u ∈ t.children, ∀ inData out parent,
      copyInto name A fuel (Layout.slot u) (some parent) inData out
        = some (out ++ (NodeData.ofNode name inData (Layout.node u)).rowsFrom out.length
            (some parent))) :
    let data := parent.isNone || (inData && t.label.2.isSchemaNode)
    copyInto name A (fuel + 1) t.slot parent inData out
      = some (out ++ (Tree.mk
          (⟨t.label.2, if parent.isSome && data then some (name t.label.2) else none⟩ : NodeData)
          (t.children.map fun u => NodeData.ofNode name data (Layout.node u))).rowsFrom out.length
            parent) := by
  intro data
  obtain ⟨above, hc⟩ := h.exists_cell
  have hbelow := Tree.foldlM_addChild
    (fun j rows => copyInto name A fuel j (some out.length) data rows) Layout.slot
    (fun u => NodeData.ofNode name data (Layout.node u)) out parent
    ⟨t.label.2, if parent.isSome && data then some (name t.label.2) else none⟩ []
    (fun u hu rows => hcopy u hu data rows out.length)
  rw [← Tree.leaf, Tree.rowsFrom_leaf, List.nil_append] at hbelow
  rw [copyInto, hc]
  exact hbelow

theorem copyInto_node (h : A.Keeps t) (hfuel : t.size ≤ fuel) (inData : Bool)
    (out : List (Tree.Row NodeData)) (parent : Nat) :
    copyInto name A fuel (Layout.slot t) (some parent) inData out
      = some (out ++ (NodeData.ofNode name inData t.node).rowsFrom out.length (some parent)) := by
  induction t using Tree.induct generalizing fuel inData out parent with
  | step t ih =>
    obtain ⟨fuel, rfl, hsize⟩ := Tree.exists_fuel hfuel
    rw [copyInto_succ h _ fun u hu => ih u hu (h.child hu) (hsize u hu), NodeData.ofNode_eq,
      Layout.node_eq, List.map_map]
    rfl

/-- What is kept as a tree is copied as the nodes of the tree with their names. -/
theorem copyInto_root (h : A.Keeps t) (hfuel : t.size ≤ fuel) (out : List (Tree.Row NodeData)) :
    copyInto name A fuel (Layout.slot t) none true out
      = some (out ++ (NodeData.ofRoot name t.node).rowsFrom out.length none) := by
  obtain ⟨fuel, rfl, hsize⟩ := Tree.exists_fuel hfuel
  rw [copyInto_succ h _ fun u hu => copyInto_node (h.child hu) (hsize u hu), NodeData.ofRoot_eq,
    Layout.node_eq, List.map_map]
  rfl

/-- A table holds a copy of what is reached from the root of an arena: row after row, the cells in
some slots. -/
structure Copies (A : Arena) (slots : List Nat) (rows : List (Tree.Row NodeData)) : Prop where
  /-- Every cell that is reached is copied once, and no other. -/
  nodup : slots.Nodup
  mem_iff : ∀ j, j ∈ slots ↔ Relation.ReflTransGen A.IsChild 0 j
  length : rows.length = slots.length
  /-- A row has the label of its cell, and names the copies of its children. -/
  cell : ∀ (k : Nat) (r : Tree.Row NodeData), rows[k]? = some r →
    ∃ c : Cell, slots[k]?.bind (A[·]?) = some c ∧ c.label = r.label.toNodeLabel
      ∧ c.children.map some = r.children.map (slots[·]?)

theorem Keeps.lt {j : Nat} (h : A.Keeps t) (hj : j ∈ t.slots) : j < A.length := by
  obtain ⟨a, ha, rfl⟩ := List.mem_map.1 hj
  rw [← Tree.map_label_subtrees] at ha
  obtain ⟨x, hx, rfl⟩ := List.mem_map.1 ha
  obtain ⟨c, hc, _⟩ := Option.map_eq_some_iff.1 (h x hx)
  exact (List.getElem?_eq_some_iff.1 hc).1

theorem LaysOut.size_le {i : Nat} (h : A.LaysOut i t) : t.size ≤ A.length := by
  have hsub : t.slots ⊆ List.range A.length := fun j hj => List.mem_range.2 (h.keeps.lt hj)
  have hle := (h.nodup.subperm hsub).length_le
  rwa [List.length_range, Layout.slots, List.length_map, Tree.length_preorder] at hle

theorem LaysOut.copies (h : A.LaysOut 0 t) (name : NodeLabel → QName) :
    A.Copies t.slots (NodeData.ofRoot name t.node).rows where
  nodup := h.nodup
  mem_iff := h.mem_iff
  length := by
    have hsize := Tree.size_map NodeData.toNodeLabel (NodeData.ofRoot name t.node)
    rw [NodeData.map_ofRoot] at hsize
    rw [Tree.rows, Tree.length_rowsFrom, ← hsize, Layout.node, Tree.size_map, Layout.slots,
      List.length_map, Tree.length_preorder]
  cell k r hr := by
    -- the same row of the layout has the slot of the cell
    have hrow : t.node.rows[k]? = some (r.relabel fun _ => NodeData.toNodeLabel) := by
      rw [← NodeData.map_ofRoot name t.node, Tree.rows_map, List.getElem?_map, hr]
      rfl
    rw [Layout.node, Tree.rows_map, List.getElem?_map] at hrow
    obtain ⟨y, hy, hyr⟩ := Option.map_eq_some_iff.1 hrow
    have hchildren : y.children = r.children := congrArg Tree.Row.children hyr
    have hlabel : y.label.2 = r.label.toNodeLabel := congrArg Tree.Row.label hyr
    have hslots : t.slots = t.rows.map (·.label.1) := by
      rw [Layout.slots, ← Tree.map_label_rowsFrom 0 none, List.map_map]
      rfl
    obtain ⟨x, hat, heq, hx⟩ := (Tree.hasAt_rows t).exists_of_mem (List.mem_of_getElem? hy)
    have hlabel' : y.label = x.label := congrArg Tree.Row.label heq
    obtain ⟨c, hc, hcell⟩ := Option.map_eq_some_iff.1 (h.keeps x (Tree.mem_subtrees_of_ite hx))
    obtain ⟨hclabel, hcchildren⟩ := Prod.mk.inj hcell
    refine ⟨c, ?_, ?_, ?_⟩
    · rw [hslots, List.getElem?_map, hy, Option.map_some, Option.bind_some, hlabel']
      exact hc
    · rw [hclabel, ← hlabel', hlabel]
    · have hplaces := congrArg (List.map (Option.map Prod.fst)) hat.children.map_label
      rw [List.map_map, List.map_map] at hplaces
      rw [hcchildren, ← hchildren, heq, List.map_map, hslots]
      refine hplaces.symm.trans (List.map_congr_left fun i _ => ?_)
      rw [List.getElem?_map, Function.comp_apply, Option.map_map]
      rfl

theorem LaysOut.freeze_eq (h : A.LaysOut 0 t) (name : NodeLabel → QName) :
    A.freeze name = some (NodeData.ofRoot name t.node).rows := by
  unfold freeze
  rw [← h.slot, copyInto_root h.keeps h.size_le]
  rfl

/-- The arena of a module is copied as the tree of what is reached from the root. -/
theorem Reached.exists_freeze (h : A.Reached) (name : NodeLabel → QName) :
    ∃ root slots, A.freeze name = some (NodeData.ofRoot name root).rows
      ∧ A.Copies slots (NodeData.ofRoot name root).rows := by
  obtain ⟨t, ht⟩ := h.exists_layout
  exact ⟨t.node, t.slots, ht.freeze_eq name, ht.copies name⟩

end Arena

/-! ## Schemas -/

namespace Schema

theorem hasTables_ofForest (model : DeclaredModel) (f : Forest) :
    (ofForest model f).HasTables := by
  intro m hm
  obtain ⟨t, _, rfl⟩ := List.mem_map.1 hm
  exact Tree.isTable_rows _

/-- The first node of a name is at its first place. -/
theorem findNode?_eq {s : Schema} (h : s.HasTables) (q : QName) :
    s.findNode? q = (s.index q).head?.bind s.nodeAt? := by
  unfold findNode?
  rw [findNodes_eq h]
  cases hplaces : s.index q with
  | nil => rfl
  | cons place places =>
    obtain ⟨n, hn, _⟩ := (mem_index_iff h).1 (hplaces ▸ List.mem_cons_self)
    rw [List.filterMap_cons_some hn]
    exact hn.symm

/-- **The nodes of a module are what is reached from its root, in preorder.** The modules of a
schema list the nodes of their trees. The nodes of a name are found where the index of all modules
has them, by module and then by number, and nowhere else. In an arena, however it has come about,
what is reached from the root is a tree, and copying it gives the nodes of the module of that
tree. -/
theorem nodes_in_preorder (model : DeclaredModel) (f : Forest) :
    (∀ t ∈ f, (Module.ofTree model t).Lists (NodeData.qnameOf model) t.root)
    ∧ (∀ q, (ofForest model f).findNodes q
          = ((ofForest model f).index q).filterMap (ofForest model f).nodeAt?
        ∧ (ofForest model f).findNode? q
          = ((ofForest model f).index q).head?.bind (ofForest model f).nodeAt?
        ∧ ((ofForest model f).index q).Pairwise (Prod.Lex (· < ·) (· < ·))
        ∧ ∀ place, place ∈ (ofForest model f).index q
          ↔ ∃ n, (ofForest model f).nodeAt? place = some n ∧ n.qname? = some q)
    ∧ ∀ (A : Arena) (id : SourceId), A.Reached → ∃ root slots,
        A.freeze (NodeData.qnameOf model) = some (Module.ofTree model ⟨id, root⟩).nodes
        ∧ A.Copies slots (Module.ofTree model ⟨id, root⟩).nodes := by
  have htables := hasTables_ofForest model f
  refine ⟨fun t _ => Module.lists_of_nodes_eq rfl, fun q => ?_, fun A id hreached => ?_⟩
  · exact ⟨findNodes_eq htables q, findNode?_eq htables q, pairwise_index htables q,
      fun _ => mem_index_iff htables⟩
  · exact hreached.exists_freeze _

/-- A module from which a container with a leaf is detached, before another leaf is added. -/
def detachedContainer : Arena :=
  let label (kind : Kind) : NodeLabel :=
    { keyword := .ofString kind.keyword, argument := some "x", location := .synthetic "detached"
      binding := .builtin kind, module := ⟨"m", none⟩, source := ⟨"m", none⟩, augmenting := false
      addedByUses := false, conditions := [], type := none }
  Arena.add (Arena.detach (Arena.add (Arena.add [⟨label .module, [], none⟩] 0 (label .container)) 1
    (label .leaf)) 1) 0 (label .leaf)

/-- The module and the other leaf are copied. -/
theorem nodes_in_preorder_detachedContainer : ∃ slots nodes,
    detachedContainer.freeze (NodeData.qnameOf ⟨[], [], ⟨[], []⟩⟩) = some nodes
      ∧ detachedContainer.Copies slots nodes ∧ nodes.length = 2 := by
  have hreached : detachedContainer.Reached :=
    .add 0 _ (.detach 1 (.add 1 _ (.add 0 _ (.root _))))
  obtain ⟨_, _, harena⟩ := nodes_in_preorder ⟨[], [], ⟨[], []⟩⟩ []
  obtain ⟨root, slots, hfreeze, hcopies⟩ := harena detachedContainer ⟨"m", none⟩ hreached
  refine ⟨slots, _, hfreeze, hcopies, ?_⟩
  have hlength : (detachedContainer.freeze (NodeData.qnameOf ⟨[], [], ⟨[], []⟩⟩)).map List.length
      = some 2 := by decide +kernel
  rw [hfreeze] at hlength
  exact Option.some.inj hlength

end Schema

end YangSchema
