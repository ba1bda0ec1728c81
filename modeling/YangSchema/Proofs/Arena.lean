import Mathlib.Data.List.Nodup
import Mathlib.Logic.Relation
import YangSchema.Proofs.Addresses
import YangSchema.Proofs.Trees
import YangSchema.Schema.Node

/-!
# Nodes in an arena

While a module is instantiated, its nodes can be kept in one arena: a list of cells, each of which
has the label of a node and names the cells of its children and of its parent by their slots. Cells
are added at the end and never removed; one that is detached stays where it is.

A `Layout` is a node with the slots in which it is kept, and `Layout.cells` are the cells that it
takes up. `Arena.Appends A B q ts` says that `B` is `A` with the nodes `ts` added under the cell
`q`, in new cells, and with no other change. Whatever is reached in `B` from one of these nodes is
in a new cell (`Arena.Appends.of_reaches`).
-/

namespace YangSchema

/-- A cell of an arena: the label of a node and the slots of its children and of its parent. -/
structure Cell where
  label : NodeLabel
  children : List Nat
  parent : Option Nat

/-- The cells of all nodes, by their slots. -/
abbrev Arena := List Cell

namespace Arena

/-- Adds a node behind the children of a parent. -/
def add (A : Arena) (parent : Nat) (label : NodeLabel) : Arena :=
  A.modify parent (fun c => { c with children := c.children ++ [A.length] })
    ++ [⟨label, [], some parent⟩]

/-- Changes the label of a node. -/
def relabel (A : Arena) (i : Nat) (f : NodeLabel → NodeLabel) : Arena :=
  A.modify i fun c => { c with label := f c.label }

/-- Takes a node from its parent. The node itself stays in the arena. -/
def detach (A : Arena) (i : Nat) : Arena :=
  match (A[i]?).bind Cell.parent with
  | none => A
  | some parent =>
    (A.modify i fun c => { c with parent := none }).modify parent fun c =>
      { c with children := c.children.filter (· != i) }

/-- One node is a child of another. -/
def IsChild (A : Arena) (i j : Nat) : Prop := ∃ c, A[i]? = some c ∧ j ∈ c.children

variable {A B C : Arena} {i j q : Nat} {l : NodeLabel} {f : NodeLabel → NodeLabel} {c : Cell}

/-! ## Cells -/

@[simp] theorem length_add : (A.add q l).length = A.length + 1 := by
  unfold add
  rw [List.length_append, List.length_modify, List.length_singleton]

@[simp] theorem length_relabel : (A.relabel i f).length = A.length := List.length_modify ..

@[simp] theorem length_detach : (A.detach i).length = A.length := by
  unfold detach
  split
  · rfl
  · rw [List.length_modify, List.length_modify]

theorem getElem?_add_parent (hc : A[q]? = some c) :
    (A.add q l)[q]? = some { c with children := c.children ++ [A.length] } := by
  have hq : q < A.length := (List.getElem?_eq_some_iff.1 hc).1
  unfold add
  rw [List.getElem?_append_left (by rwa [List.length_modify]), List.getElem?_modify_eq, hc]
  rfl

theorem getElem?_add_new : (A.add q l)[A.length]? = some ⟨l, [], some q⟩ := by
  unfold add
  have hle : (A.modify q fun c => { c with children := c.children ++ [A.length] }).length
      ≤ A.length := Nat.le_of_eq (List.length_modify ..)
  rw [List.getElem?_append_right hle, List.length_modify, Nat.sub_self]
  rfl

theorem getElem?_add_of_ne (hi : i < A.length) (hne : i ≠ q) : (A.add q l)[i]? = A[i]? := by
  unfold add
  rw [List.getElem?_append_left (by rwa [List.length_modify]), List.getElem?_modify_ne _ _ hne.symm]

theorem getElem?_relabel_self (hc : A[i]? = some c) :
    (A.relabel i f)[i]? = some { c with label := f c.label } := by
  unfold relabel
  rw [List.getElem?_modify_eq, hc]
  rfl

theorem getElem?_relabel_of_ne (hne : j ≠ i) : (A.relabel i f)[j]? = A[j]? :=
  List.getElem?_modify_ne _ _ hne.symm

end Arena

/-! ## Layouts -/

/-- A node with the slots in which it is kept. -/
abbrev Layout := Tree (Nat × NodeLabel)

namespace Layout

/-- The slot of the node itself. -/
def slot (t : Layout) : Nat := t.label.1

/-- The node that is kept. -/
def node (t : Layout) : Node := t.map Prod.snd

/-- The slots of a node and of all nodes below it. -/
def slots (t : Layout) : List Nat := t.preorder.map Prod.fst

/-- The slots of a list of nodes and of all nodes below them. -/
def forestSlots (ts : List Layout) : List Nat := (Tree.forestPreorder ts).map Prod.fst

mutual

/-- The cells that a node takes up under a parent, with their slots. -/
def cells (parent : Nat) : Layout → List (Nat × Cell)
  | ⟨(i, l), ts⟩ => (i, ⟨l, ts.map slot, some parent⟩) :: forestCells i ts

/-- The cells that a list of nodes takes up under a common parent. -/
def forestCells (parent : Nat) : List Layout → List (Nat × Cell)
  | [] => []
  | t :: ts => cells parent t ++ forestCells parent ts

end

variable {s s' t : Layout} {ts us : List Layout} {p : List Nat} {q i j : Nat} {c : Cell}

theorem cells_eq (q : Nat) (t : Layout) :
    t.cells q
      = (t.slot, ⟨t.label.2, t.children.map slot, some q⟩) :: forestCells t.slot t.children := by
  obtain ⟨⟨i, l⟩, ts⟩ := t
  rw [cells]
  rfl

theorem slots_eq (t : Layout) : t.slots = t.slot :: forestSlots t.children := by
  obtain ⟨a, ts⟩ := t
  unfold slots forestSlots
  rw [Tree.preorder, List.map_cons]
  rfl

@[simp] theorem forestSlots_nil : forestSlots [] = [] := rfl

@[simp] theorem forestSlots_cons : forestSlots (t :: ts) = t.slots ++ forestSlots ts := by
  unfold forestSlots slots
  rw [Tree.forestPreorder, List.map_append]

@[simp] theorem forestSlots_append : forestSlots (ts ++ us) = forestSlots ts ++ forestSlots us := by
  induction ts with
  | nil => rfl
  | cons t ts ih => rw [List.cons_append, forestSlots_cons, forestSlots_cons, ih, List.append_assoc]

theorem forestCells_append :
    forestCells q (ts ++ us) = forestCells q ts ++ forestCells q us := by
  induction ts with
  | nil => rw [forestCells]; rfl
  | cons t ts ih => rw [List.cons_append, forestCells, forestCells, ih, List.append_assoc]

/-- The cells have the labels of the nodes. -/
theorem map_label_cells (q : Nat) (t : Layout) :
    (t.cells q).map (fun x => (x.1, x.2.label)) = t.preorder := by
  induction t using Tree.induct generalizing q with
  | step t ih =>
    have forest : ∀ ts : List Layout,
        (∀ c ∈ ts, ∀ q, (cells q c).map (fun x => (x.1, x.2.label)) = c.preorder) →
        ∀ q, (forestCells q ts).map (fun x => (x.1, x.2.label)) = Tree.forestPreorder ts := by
      intro ts
      induction ts with
      | nil => intro _ q; rw [forestCells]; rfl
      | cons c ts ihts =>
        intro h q
        rw [forestCells, List.map_append, h c List.mem_cons_self, Tree.forestPreorder,
          ihts fun d hd => h d (List.mem_cons_of_mem c hd)]
    obtain ⟨a, ts⟩ := t
    rw [cells, Tree.preorder, List.map_cons, forest ts ih]

theorem map_label_forestCells (q : Nat) (ts : List Layout) :
    (forestCells q ts).map (fun x => (x.1, x.2.label)) = Tree.forestPreorder ts := by
  induction ts with
  | nil => rw [forestCells]; rfl
  | cons t ts ih => rw [forestCells, List.map_append, map_label_cells, Tree.forestPreorder, ih]

theorem map_fst_cells (q : Nat) (t : Layout) : (t.cells q).map Prod.fst = t.slots := by
  rw [slots, ← map_label_cells q, List.map_map]
  rfl

theorem map_fst_forestCells (q : Nat) (ts : List Layout) :
    (forestCells q ts).map Prod.fst = forestSlots ts := by
  rw [forestSlots, ← map_label_forestCells q, List.map_map]
  rfl

theorem mem_forestCells {x : Nat × Cell} : x ∈ forestCells q ts ↔ ∃ t ∈ ts, x ∈ cells q t := by
  induction ts with
  | nil => rw [forestCells]; simp
  | cons t ts ih => rw [forestCells, List.mem_append, ih]; simp

theorem exists_cell_of_mem (hi : i ∈ ts.map slot) : ∃ c, (i, c) ∈ forestCells q ts := by
  obtain ⟨t, ht, rfl⟩ := List.mem_map.1 hi
  refine ⟨⟨t.label.2, t.children.map slot, some q⟩, mem_forestCells.2 ⟨t, ht, ?_⟩⟩
  rw [cells_eq]
  exact List.mem_cons_self

/-- The children that a cell names have cells, too. -/
theorem exists_cell_of_child {x : Nat × Cell} (hx : x ∈ cells q t) (hj : j ∈ x.2.children) :
    ∃ c, (j, c) ∈ cells q t := by
  induction t using Tree.induct generalizing q with
  | step t ih =>
    rw [cells_eq] at hx ⊢
    rcases List.mem_cons.1 hx with rfl | hx
    · exact (exists_cell_of_mem hj).imp fun c hc => List.mem_cons_of_mem _ hc
    · obtain ⟨u, hu, hx⟩ := mem_forestCells.1 hx
      obtain ⟨c, hc⟩ := ih u hu hx
      exact ⟨c, List.mem_cons_of_mem _ (mem_forestCells.2 ⟨u, hu, hc⟩)⟩

/-- The labels of the nodes that are kept. -/
theorem forestPreorder_map_node (ts : List Layout) :
    Tree.forestPreorder (ts.map node) = (Tree.forestPreorder ts).map Prod.snd := by
  rw [← Tree.forestPreorder_map, Tree.mapForest_eq]
  rfl

theorem slot_mem_slots (t : Layout) : t.slot ∈ t.slots := by
  rw [slots_eq]
  exact List.mem_cons_self

theorem slot_mem_of_mem_subtrees (h : s ∈ t.subtrees) : slot s ∈ t.slots := by
  unfold slots
  rw [← Tree.map_label_subtrees, List.map_map]
  exact List.mem_map_of_mem (f := Prod.fst ∘ Tree.label) h

theorem slots_subset_forestSlots (ht : t ∈ ts) : t.slots ⊆ forestSlots ts := by
  obtain ⟨pre, post, rfl⟩ := List.append_of_mem ht
  rw [forestSlots_append, forestSlots_cons]
  exact fun i hi => List.mem_append_right _ (List.mem_append_left _ hi)

theorem map_slot_forestReplace (hs : Tree.forestSubtree? ts p = some s) (hslot : s'.slot = s.slot) :
    (Tree.forestReplace s' ts p).map slot = ts.map slot :=
  Tree.map_label_forestReplace Prod.fst hs hslot

/-- The cells of a list of nodes one of which is changed. -/
theorem forestCells_modify {f : Layout → Layout} (ht : ts[i]? = some t) :
    (forestCells q (ts.modify i f)).Perm
      (forestCells q (ts.take i ++ ts.drop (i + 1)) ++ (f t).cells q) := by
  obtain ⟨hi, rfl⟩ := List.getElem?_eq_some_iff.1 ht
  rw [List.modify_eq_take_cons_drop hi, forestCells_append, forestCells_append, forestCells,
    List.append_assoc]
  exact List.perm_append_comm.append_left _

/-- Each node of a list takes up its own cells, and what is put in its place at the same slot takes
up others in their place. -/
theorem exists_forestCells_perm (hs : Tree.forestSubtree? ts p = some s) :
    ∃ parent outside, (forestCells q ts).Perm (outside ++ s.cells parent)
      ∧ ∀ s' : Layout, s'.slot = s.slot →
        (forestCells q (Tree.forestReplace s' ts p)).Perm (outside ++ s'.cells parent) := by
  induction p generalizing ts q with
  | nil => cases hs
  | cons i rest ih =>
    obtain ⟨t, ht, hs⟩ := Option.bind_eq_some_iff.1 hs
    have hself : (forestCells q ts).Perm
        (forestCells q (ts.take i ++ ts.drop (i + 1)) ++ cells q t) := by
      have hperm := forestCells_modify (q := q) (f := id) ht
      rwa [List.modify_id] at hperm
    cases rest with
    | nil =>
      cases hs
      exact ⟨q, _, hself, fun _ _ => forestCells_modify ht⟩
    | cons j rest =>
      obtain ⟨⟨k, l⟩, cs⟩ := t
      change Tree.forestSubtree? cs (j :: rest) = some s at hs
      obtain ⟨parent, outside, hperm, hreplace⟩ := ih (q := k) hs
      -- the node above is the same one: its children are at the same slots
      let above : Nat × Cell := (k, ⟨l, cs.map slot, some q⟩)
      let beside := forestCells q (ts.take i ++ ts.drop (i + 1))
      have hinside {us : List Layout} {xs : List (Nat × Cell)} (hus : us.map slot = cs.map slot)
          (hxs : (forestCells k us).Perm (outside ++ xs)) :
          (beside ++ cells q ⟨(k, l), us⟩).Perm (beside ++ above :: outside ++ xs) := by
        rw [cells, hus, List.append_assoc, List.cons_append]
        exact (hxs.cons above).append_left beside
      refine ⟨parent, beside ++ above :: outside, hself.trans (hinside rfl hperm), ?_⟩
      intro s' hslot
      exact (forestCells_modify ht).trans
        (hinside (map_slot_forestReplace hs hslot) (hreplace s' hslot))

end Layout

namespace Arena

open Layout (forestCells forestSlots)

variable {A B C : Arena} {cs ds : List (Nat × Cell)} {s t u : Layout} {ts us : List Layout}
  {p : List Nat} {i j q : Nat} {l : NodeLabel} {f : NodeLabel → NodeLabel} {c : Cell}

/-! ## Having cells -/

/-- The arena has the cells at their slots. -/
def Has (A : Arena) (cs : List (Nat × Cell)) : Prop := ∀ x ∈ cs, A[x.1]? = some x.2

theorem has_append : A.Has (cs ++ ds) ↔ A.Has cs ∧ A.Has ds := List.forall_mem_append

theorem has_cons {x : Nat × Cell} : A.Has (x :: cs) ↔ A[x.1]? = some x.2 ∧ A.Has cs :=
  List.forall_mem_cons

theorem Has.perm (h : A.Has cs) (hperm : cs.Perm ds) : A.Has ds :=
  fun x hx => h x (hperm.mem_iff.2 hx)

theorem Has.congr (h : A.Has cs) (hsame : ∀ i ∈ cs.map Prod.fst, B[i]? = A[i]?) : B.Has cs :=
  fun x hx => (hsame x.1 (List.mem_map_of_mem hx)).trans (h x hx)

theorem Has.lt (h : A.Has cs) (hi : i ∈ cs.map Prod.fst) : i < A.length := by
  obtain ⟨x, hx, rfl⟩ := List.mem_map.1 hi
  exact (List.getElem?_eq_some_iff.1 (h x hx)).1

/-! ## Adding nodes -/

/-- The arena `B` is `A` with nodes added under a parent, in new cells. -/
structure Appends (A B : Arena) (q : Nat) (ts : List Layout) : Prop where
  /-- The parent has the nodes as new children, and is otherwise the same. -/
  parent : ∃ c, A[q]? = some c
    ∧ B[q]? = some { c with children := c.children ++ ts.map Layout.slot }
  /-- All other cells are the same. -/
  frame : ∀ i < A.length, i ≠ q → B[i]? = A[i]?
  length_le : A.length ≤ B.length
  has : B.Has (forestCells q ts)
  fresh : ∀ i ∈ forestSlots ts, A.length ≤ i
  distinct : (forestSlots ts).Nodup

namespace Appends

theorem lt (h : Appends A B q ts) : q < A.length := by
  obtain ⟨c, hc, _⟩ := h.parent
  exact (List.getElem?_eq_some_iff.1 hc).1

theorem slots_lt (h : Appends A B q ts) (hi : i ∈ forestSlots ts) : i < B.length :=
  h.has.lt (Layout.map_fst_forestCells q ts ▸ hi)

theorem refl (hc : A[q]? = some c) : Appends A A q [] where
  parent := ⟨c, hc, by rw [List.map_nil, List.append_nil]; exact hc⟩
  frame _ _ _ := rfl
  length_le := Nat.le_refl _
  has := by
    rw [forestCells]
    exact fun x hx => absurd hx List.not_mem_nil
  fresh i hi := absurd hi List.not_mem_nil
  distinct := List.nodup_nil

/-- Nodes that are added later are added behind. -/
theorem trans (h : Appends A B q ts) (h' : Appends B C q us) : Appends A C q (ts ++ us) where
  parent := by
    obtain ⟨c, hc, hb⟩ := h.parent
    obtain ⟨c', hc', hd⟩ := h'.parent
    cases hb.symm.trans hc'
    refine ⟨c, hc, ?_⟩
    rw [hd, List.map_append, List.append_assoc]
  frame i hi hne := (h'.frame i (Nat.lt_of_lt_of_le hi h.length_le) hne).trans (h.frame i hi hne)
  length_le := Nat.le_trans h.length_le h'.length_le
  has := by
    rw [Layout.forestCells_append]
    refine has_append.2 ⟨h.has.congr fun i hi => ?_, h'.has⟩
    rw [Layout.map_fst_forestCells] at hi
    exact h'.frame i (h.slots_lt hi) fun heq => absurd (h.fresh i hi) (by have := h.lt; omega)
  fresh i hi := by
    rw [Layout.forestSlots_append] at hi
    rcases List.mem_append.1 hi with hi | hi
    · exact h.fresh i hi
    · exact Nat.le_trans h.length_le (h'.fresh i hi)
  distinct := by
    rw [Layout.forestSlots_append, List.nodup_append]
    refine ⟨h.distinct, h'.distinct, ?_⟩
    rintro i hi _ hi' rfl
    have hlt := h.slots_lt hi
    have hle := h'.fresh i hi'
    omega

/-- Nodes that are added under a node that has just been added come with it. -/
theorem under (hc : A[q]? = some c) (h : Appends (A.add q l) B A.length ts) :
    Appends A B q [⟨(A.length, l), ts⟩] := by
  have hq : q < A.length := (List.getElem?_eq_some_iff.1 hc).1
  have hlength : (A.add q l).length = A.length + 1 := length_add
  obtain ⟨new, hnew, hb⟩ := h.parent
  cases getElem?_add_new.symm.trans hnew
  have hcells : forestCells q [⟨(A.length, l), ts⟩]
      = (A.length, ⟨l, ts.map Layout.slot, some q⟩) :: forestCells A.length ts := by
    rw [forestCells, Layout.cells, forestCells, List.append_nil]
  have hslots : forestSlots [⟨(A.length, l), ts⟩] = A.length :: forestSlots ts := by
    rw [Layout.forestSlots_cons, Layout.slots_eq, Layout.forestSlots_nil, List.append_nil]
    rfl
  refine ⟨⟨c, hc, ?_⟩, fun i hi hne => ?_, ?_, ?_, ?_, ?_⟩
  · rw [h.frame q (by omega) (by omega), getElem?_add_parent hc]
    rfl
  · rw [h.frame i (by omega) (by omega), getElem?_add_of_ne hi hne]
  · have := h.length_le
    omega
  · rw [hcells]
    exact has_cons.2 ⟨hb, h.has⟩
  · rw [hslots]
    refine List.forall_mem_cons.2 ⟨Nat.le_refl _, fun i hi => ?_⟩
    have := h.fresh i hi
    omega
  · rw [hslots]
    refine List.nodup_cons.2 ⟨fun hmem => ?_, h.distinct⟩
    have := h.fresh _ hmem
    omega

/-- Whatever is reached from a node that has been added has been added with it. -/
theorem of_reaches (h : Appends A B q ts) (hi : i ∈ ts.map Layout.slot)
    (hpath : Relation.ReflTransGen B.IsChild i j) :
    A.length ≤ j ∧ ∃ c, B[j]? = some c
      ∧ c.label ∈ Tree.forestPreorder (ts.map Layout.node) := by
  have hcell : ∃ c, (j, c) ∈ forestCells q ts := by
    induction hpath with
    | refl => exact Layout.exists_cell_of_mem hi
    | @tail j k _ hchild ih =>
      obtain ⟨c, hc⟩ := ih
      obtain ⟨c', hc', hk⟩ := hchild
      cases (h.has _ hc).symm.trans hc'
      obtain ⟨t, ht, hc⟩ := Layout.mem_forestCells.1 hc
      obtain ⟨d, hd⟩ := Layout.exists_cell_of_child hc hk
      exact ⟨d, Layout.mem_forestCells.2 ⟨t, ht, hd⟩⟩
  obtain ⟨c, hc⟩ := hcell
  refine ⟨h.fresh j ?_, c, h.has _ hc, ?_⟩
  · rw [← Layout.map_fst_forestCells q]
    exact List.mem_map_of_mem hc
  · rw [Layout.forestPreorder_map_node, ← Layout.map_label_forestCells q, List.map_map]
    exact List.mem_map_of_mem (f := fun x : Nat × Cell => x.2.label) hc

end Appends

end Arena

end YangSchema
