import YangSchema.Proofs.Everywhere
import YangSchema.Proofs.Freezing

/-!
# Parents and children in a schema

The rows of a module name parents and children by number. Where they are those of a tree, going to
the children of a node and going to the parent of a node are inverse to each other
(`SchemaNode.parent?_eq_some_iff`), and what holds of every node of the tree and its children holds
of every row and those of its children (`Module.holds_of_everywhere`).
-/

namespace YangSchema

variable {m : Module} {n c p : SchemaNode} {i : Nat} {ids : List Nat}

namespace Module

theorem mem_allNodes : n ∈ m.allNodes ↔ n.module = m ∧ n.row ∈ m.nodes := by
  obtain ⟨m', r⟩ := n
  rw [allNodes, List.mem_map]
  constructor
  · rintro ⟨r', hr, heq⟩
    obtain ⟨rfl, rfl⟩ := SchemaNode.mk.inj heq
    exact ⟨rfl, hr⟩
  · rintro ⟨rfl, hr⟩
    exact ⟨r, hr, rfl⟩

/-- The node of a number. -/
theorem node?_eq_some_iff (h : Tree.IsTable m.nodes) :
    m.node? i = some n ↔ n ∈ m.allNodes ∧ n.id = i := by
  rw [mem_allNodes, node?, Option.map_eq_some_iff]
  constructor
  · rintro ⟨r, hr, rfl⟩
    exact ⟨⟨rfl, List.mem_of_getElem? hr⟩, h.id_eq i r hr⟩
  · rintro ⟨⟨rfl, hr⟩, rfl⟩
    obtain ⟨j, hj⟩ := List.mem_iff_getElem?.1 hr
    have hid : n.id = j := h.id_eq j n.row hj
    exact ⟨n.row, by rw [hid, hj], rfl⟩

theorem mem_nodesOf (h : Tree.IsTable m.nodes) :
    n ∈ m.nodesOf ids ↔ n ∈ m.allNodes ∧ n.id ∈ ids := by
  rw [nodesOf, List.mem_filterMap]
  constructor
  · rintro ⟨i, hi, hn⟩
    obtain ⟨hmem, rfl⟩ := (node?_eq_some_iff h).1 hn
    exact ⟨hmem, hi⟩
  · rintro ⟨hn, hi⟩
    exact ⟨n.id, hi, (node?_eq_some_iff h).2 ⟨hn, rfl⟩⟩

end Module

namespace SchemaNode

theorem mem_children_iff (h : Tree.IsTable m.nodes) (hn : n ∈ m.allNodes) :
    c ∈ n.children ↔ c ∈ m.allNodes ∧ Tree.IsParentRow m.nodes n.row c.row := by
  obtain ⟨rfl, hrow⟩ := Module.mem_allNodes.1 hn
  rw [children, Module.mem_nodesOf h]
  apply and_congr_right
  intro hc
  have hcrow := (Module.mem_allNodes.1 hc).2
  rw [Tree.IsParentRow, and_iff_right hrow, and_iff_right hcrow,
    h.parent_iff n.row hrow c.row hcrow]
  rfl

/-- A node is the parent of its children, and of no others. -/
theorem parent?_eq_some_iff (h : Tree.IsTable m.nodes) (hc : c ∈ m.allNodes) :
    c.parent? = some n ↔ n ∈ m.allNodes ∧ c ∈ n.children := by
  obtain ⟨rfl, hrow⟩ := Module.mem_allNodes.1 hc
  rw [parent?, Option.bind_eq_some_iff]
  constructor
  · rintro ⟨i, hi, hn⟩
    obtain ⟨hmem, rfl⟩ := (Module.node?_eq_some_iff h).1 hn
    exact ⟨hmem, (mem_children_iff h hmem).2 ⟨hc, (Module.mem_allNodes.1 hmem).2, hrow, hi⟩⟩
  · rintro ⟨hn, hchild⟩
    obtain ⟨_, _, _, hparent⟩ := (mem_children_iff h hn).1 hchild
    exact ⟨n.id, hparent, (Module.node?_eq_some_iff h).2 ⟨hn, rfl⟩⟩

theorem parent?_of_mem_children (h : Tree.IsTable m.nodes) (hn : n ∈ m.allNodes)
    (hc : c ∈ n.children) : c ∈ m.allNodes ∧ c.parent? = some n := by
  have hmem := ((mem_children_iff h hn).1 hc).1
  exact ⟨hmem, (parent?_eq_some_iff h hmem).2 ⟨hn, hc⟩⟩

/-- The root is the only node without a parent. -/
theorem parent?_eq_none_iff (h : Tree.IsTable m.nodes) (hn : n ∈ m.allNodes) :
    n.parent? = none ↔ n.id = 0 := by
  obtain ⟨rfl, hrow⟩ := Module.mem_allNodes.1 hn
  rw [id, ← h.parent_eq_none n.row hrow, parent?]
  cases hp : n.row.parent with
  | none => exact iff_of_true rfl rfl
  | some i =>
    obtain ⟨q, hq, rfl⟩ := h.parent_mem n.row hrow i hp
    have hnode := (Module.node?_eq_some_iff h (n := ⟨n.module, q⟩)).2
      ⟨Module.mem_allNodes.2 ⟨rfl, hq⟩, rfl⟩
    refine iff_of_false (fun hnone => ?_) (fun h => nomatch h)
    cases hnode.symm.trans hnone

end SchemaNode

/-! ## Conditions on parents and children -/

namespace Tree

variable {α : Type} {t : Tree α} {r : Row α}

/-- A row of a tree is that of a subtree, and its children are those of the subtree. -/
theorem exists_subtree_of_mem_rows (hr : r ∈ t.rows) : ∃ x ∈ t.subtrees, r.label = x.label
    ∧ (childRows t.rows r).map Row.label = x.children.map label := by
  obtain ⟨x, hat, hrow, hx⟩ := (hasAt_rows t).exists_of_mem hr
  refine ⟨x, mem_subtrees_of_ite hx, congrArg Row.label hrow, ?_⟩
  have hchildren : r.children = rootPlaces (r.id + 1) x.children := congrArg Row.children hrow
  have hlabels := congrArg (List.filterMap fun o : Option α => o) hat.children.map_label
  rw [List.filterMap_map, List.filterMap_map] at hlabels
  rw [childRows, List.map_filterMap, hchildren, ← List.filterMap_eq_map]
  exact hlabels

end Tree

namespace Module

variable {name : NodeLabel → QName} {root : Node} {P : NodeLabel → List NodeLabel → Prop}

/-- What holds everywhere in a tree holds of the nodes of the module with their children. -/
theorem holds_of_everywhere (h : m.nodes = (NodeData.ofRoot name root).rows)
    (hroot : root.Everywhere P) (hn : n ∈ m.allNodes) :
    P n.row.label.toNodeLabel (n.children.map (·.row.label.toNodeLabel)) := by
  obtain ⟨rfl, hrow⟩ := mem_allNodes.1 hn
  rw [h] at hrow
  obtain ⟨x, hx, hlabel, hchildren⟩ := Tree.exists_subtree_of_mem_rows hrow
  have hall : (NodeData.ofRoot name root).Everywhere fun a as =>
      P a.toNodeLabel (as.map NodeData.toNodeLabel) := by
    rw [← Tree.Everywhere.map_iff, NodeData.map_ofRoot]
    exact hroot
  have hholds := hall x hx
  rw [← hchildren, ← hlabel, ← h, List.map_map] at hholds
  rw [show n.children = (Tree.childRows n.module.nodes n.row).map (SchemaNode.mk n.module) from
    SchemaNode.children_eq n.module n.row, List.map_map]
  exact hholds

end Module

end YangSchema
