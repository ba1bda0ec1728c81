import Mathlib.Data.List.Perm.Subperm
import YangSchema.Proofs.ModuleArena

/-!
# Rewriting what has been added to an arena

`Rewrites A B q s t` says that only the cells of the node `s` under `q` have been changed, and that
they hold `t` now, together with new cells. A node is rewritten by relabelling it, by detaching
children and by adding nodes under it. Where nodes have been added to an arena and one of them is
rewritten, be it at the top or below, the arena is still one to which nodes have been added, and
nothing else (`Arena.Appends.exists_focus`).

All that stands below a node is relabelled by a traversal with a stack, which comes to each cell
once (`Arena.forEach_eq`).
-/

namespace YangSchema

namespace Arena

open Layout (forestCells forestSlots)

/-- The arena has the cells of a node under a parent, which are different ones. -/
structure Holds (A : Arena) (q : Nat) (s : Layout) : Prop where
  has : A.Has (s.cells q)
  distinct : s.slots.Nodup

/-- The arena `B` is `A` with the node `s` under `q` turned into `t`. -/
structure Rewrites (A B : Arena) (q : Nat) (s t : Layout) : Prop where
  holds : B.Holds q t
  slot : t.slot = s.slot
  /-- The node takes up no other cells than before, new ones apart. -/
  within : ∀ i ∈ t.slots, i ∈ s.slots ∨ A.length ≤ i
  /-- All other cells are the same. -/
  frame : ∀ i < A.length, i ∉ s.slots → B[i]? = A[i]?
  length_le : A.length ≤ B.length

variable {A B C : Arena} {s t u : Layout} {ts us : List Layout} {p : List Nat} {i q : Nat}
  {f : NodeLabel → NodeLabel}

namespace Holds

theorem root (h : A.Holds q s) :
    A[s.slot]? = some ⟨s.label.2, s.children.map Layout.slot, some q⟩ := by
  have hroot := h.has
  rw [Layout.cells_eq] at hroot
  exact (has_cons.1 hroot).1

theorem children (h : A.Holds q s) : A.Has (forestCells s.slot s.children) := by
  have hall := h.has
  rw [Layout.cells_eq] at hall
  exact (has_cons.1 hall).2

theorem distinct_children (h : A.Holds q s) :
    s.slot ∉ forestSlots s.children ∧ (forestSlots s.children).Nodup := by
  have hall := h.distinct
  rw [Layout.slots_eq] at hall
  exact List.nodup_cons.1 hall

theorem lt (h : A.Holds q s) (hi : i ∈ s.slots) : i < A.length :=
  h.has.lt (Layout.map_fst_cells q s ▸ hi)

/-- An arena has as many slots as a node takes up. -/
theorem length_slots_le (h : A.Holds q s) : s.slots.length ≤ A.length := by
  have hsub : s.slots ⊆ List.range A.length := fun i hi => List.mem_range.2 (h.lt hi)
  have hle := (h.distinct.subperm hsub).length_le
  rwa [List.length_range] at hle

/-- A node is told by its own cell and by those of its children. -/
theorem intro (hroot : A[s.slot]? = some ⟨s.label.2, s.children.map Layout.slot, some q⟩)
    (hchildren : A.Has (forestCells s.slot s.children)) (hnew : s.slot ∉ forestSlots s.children)
    (hdistinct : (forestSlots s.children).Nodup) : A.Holds q s where
  has := by
    rw [Layout.cells_eq]
    exact has_cons.2 ⟨hroot, hchildren⟩
  distinct := by
    rw [Layout.slots_eq]
    exact List.nodup_cons.2 ⟨hnew, hdistinct⟩

end Holds

namespace Rewrites

theorem refl (h : A.Holds q s) : Rewrites A A q s s :=
  ⟨h, rfl, fun _ hi => .inl hi, fun _ _ _ => rfl, Nat.le_refl _⟩

theorem trans (h : Rewrites A B q s t) (h' : Rewrites B C q t u) : Rewrites A C q s u where
  holds := h'.holds
  slot := h'.slot.trans h.slot
  within i hi := by
    rcases h'.within i hi with hi | hle
    · exact h.within i hi
    · exact .inr (Nat.le_trans h.length_le hle)
  frame i hi hnot := by
    have hnot' : i ∉ t.slots := fun hi' => by
      rcases h.within i hi' with hi' | hle
      · exact hnot hi'
      · omega
    exact (h'.frame i (Nat.lt_of_lt_of_le hi h.length_le) hnot').trans (h.frame i hi hnot)
  length_le := Nat.le_trans h.length_le h'.length_le

/-- A node can be relabelled. -/
theorem relabel (h : A.Holds q s) :
    Rewrites A (A.relabel s.slot f) q s ⟨(s.slot, f s.label.2), s.children⟩ where
  holds := by
    obtain ⟨hnew, hdistinct⟩ := h.distinct_children
    refine .intro (getElem?_relabel_self h.root) (h.children.congr fun i hi => ?_) hnew hdistinct
    rw [Layout.map_fst_forestCells] at hi
    exact getElem?_relabel_of_ne fun heq => hnew (heq ▸ hi)
  slot := rfl
  within i hi := by
    rw [Layout.slots_eq] at hi ⊢
    exact .inl hi
  frame i _ hnot :=
    getElem?_relabel_of_ne fun heq => hnot (heq ▸ Layout.slot_mem_slots s)
  length_le := Nat.le_of_eq length_relabel.symm

/-- Nodes can be added under a node. -/
theorem addChildren (h : A.Holds q s) (hadd : Appends A B s.slot ts) :
    Rewrites A B q s (s.addChildren ts) where
  holds := by
    obtain ⟨hnew, hdistinct⟩ := h.distinct_children
    obtain ⟨c, hc, hb⟩ := hadd.parent
    cases h.root.symm.trans hc
    have hold : ∀ i ∈ forestSlots s.children, i < A.length := fun i hi =>
      h.children.lt (Layout.map_fst_forestCells s.slot s.children ▸ hi)
    refine .intro ?_ ?_ (fun hi => ?_) ?_
    · rw [Tree.addChildren, List.map_append]
      exact hb
    · show B.Has (forestCells s.slot (s.children ++ ts))
      rw [Layout.forestCells_append]
      refine has_append.2 ⟨h.children.congr fun i hi => ?_, hadd.has⟩
      rw [Layout.map_fst_forestCells] at hi
      exact hadd.frame i (hold i hi) fun heq => hnew (heq ▸ hi)
    · change s.slot ∈ forestSlots (s.children ++ ts) at hi
      rw [Layout.forestSlots_append] at hi
      rcases List.mem_append.1 hi with hi | hi
      · exact hnew hi
      · have := hadd.fresh _ hi
        have := hadd.lt
        omega
    · show (forestSlots (s.children ++ ts)).Nodup
      rw [Layout.forestSlots_append, List.nodup_append]
      refine ⟨hdistinct, hadd.distinct, ?_⟩
      rintro i hi _ hi' rfl
      have := hold i hi
      have := hadd.fresh i hi'
      omega
  slot := rfl
  within i hi := by
    rw [Layout.slots_eq] at hi ⊢
    change i ∈ s.slot :: forestSlots (s.children ++ ts) at hi
    rw [Layout.forestSlots_append, ← List.cons_append] at hi
    rcases List.mem_append.1 hi with hi | hi
    · exact .inl hi
    · exact .inr (hadd.fresh i hi)
  frame i hi hnot := hadd.frame i hi fun heq => hnot (heq ▸ Layout.slot_mem_slots s)
  length_le := hadd.length_le

end Rewrites

end Arena

namespace Layout

variable {s c : Layout} {ts us : List Layout} {i q : Nat}

theorem mem_forestSlots : i ∈ forestSlots ts ↔ ∃ t ∈ ts, i ∈ t.slots := by
  induction ts with
  | nil => simp
  | cons t ts ih => rw [forestSlots_cons, List.mem_append, ih]; simp

theorem forestSlots_sublist (h : us.Sublist ts) : (forestSlots us).Sublist (forestSlots ts) := by
  induction h with
  | slnil => exact .refl _
  | cons t _ ih =>
    rw [forestSlots_cons]
    exact ih.trans (List.sublist_append_right _ _)
  | cons_cons t _ ih =>
    rw [forestSlots_cons, forestSlots_cons]
    exact ih.append_left _

theorem forestSlots_perm (h : us.Perm ts) : (forestSlots us).Perm (forestSlots ts) := by
  induction h with
  | nil => exact .nil
  | cons t _ ih =>
    rw [forestSlots_cons, forestSlots_cons]
    exact ih.append_left _
  | swap t u ts =>
    simp only [forestSlots_cons, ← List.append_assoc]
    exact List.perm_append_comm.append_right _
  | trans _ _ ih ih' => exact ih.trans ih'

theorem map_slot_sublist (ts : List Layout) : (ts.map slot).Sublist (forestSlots ts) := by
  induction ts with
  | nil => exact .refl _
  | cons t ts ih =>
    rw [List.map_cons, forestSlots_cons, slots_eq, List.cons_append]
    exact (ih.trans (List.sublist_append_right _ _)).cons_cons _

/-- The nodes that are left when one has been taken out do not take up its cell. -/
theorem not_mem_forestSlots_filter (h : (forestSlots ts).Nodup) (hc : c ∈ ts) :
    c.slot ∉ forestSlots (ts.filter fun u => !(u.slot == c.slot)) := by
  intro hmem
  obtain ⟨u, hu, hslot⟩ := mem_forestSlots.1 hmem
  obtain ⟨hu, hne⟩ := List.mem_filter.1 hu
  obtain ⟨pre, post, rfl⟩ := List.append_of_mem hc
  rw [forestSlots_append, forestSlots_cons, List.nodup_append, List.nodup_append] at h
  obtain ⟨_, ⟨_, _, hpost⟩, hpre⟩ := h
  rcases List.mem_append.1 hu with hu | hu
  · exact hpre _ (slots_subset_forestSlots hu hslot) _
      (List.mem_append_left _ (slot_mem_slots c)) rfl
  · rcases List.mem_cons.1 hu with rfl | hu
    · simp at hne
    · exact hpost _ (slot_mem_slots c) _ (slots_subset_forestSlots hu hslot) rfl

theorem forestCells_subset (h : us ⊆ ts) : forestCells q us ⊆ forestCells q ts := by
  intro x hx
  obtain ⟨u, hu, hx⟩ := mem_forestCells.1 hx
  exact mem_forestCells.2 ⟨u, h hu, hx⟩

end Layout

namespace Arena

open Layout (forestCells forestSlots)

variable {A B C : Arena} {s c s' : Layout} {ts us : List Layout} {p : List Nat} {i q : Nat}
  {f : NodeLabel → NodeLabel}

/-! ## Detaching children -/

theorem getElem?_detach_parent {d d' : Cell} (hd : A[i]? = some d) (hparent : d.parent = some q)
    (hd' : A[q]? = some d') (hne : q ≠ i) :
    (A.detach i)[q]? = some { d' with children := d'.children.filter fun j => !(j == i) } := by
  unfold detach
  rw [hd]
  simp only [Option.bind_some, hparent]
  rw [List.getElem?_modify_eq, List.getElem?_modify_ne _ _ hne.symm, hd']
  rfl

theorem getElem?_detach_of_ne {d : Cell} {j : Nat} (hd : A[i]? = some d)
    (hparent : d.parent = some q) (hj : j ≠ i) (hjq : j ≠ q) : (A.detach i)[j]? = A[j]? := by
  unfold detach
  rw [hd]
  simp only [Option.bind_some, hparent]
  rw [List.getElem?_modify_ne _ _ hjq.symm, List.getElem?_modify_ne _ _ hj.symm]

/-- The cell of a child. -/
theorem Holds.child (h : A.Holds q s) (hc : c ∈ s.children) :
    A[c.slot]? = some ⟨c.label.2, c.children.map Layout.slot, some s.slot⟩ := by
  refine h.children (c.slot, _) (Layout.mem_forestCells.2 ⟨c, hc, ?_⟩)
  rw [Layout.cells_eq]
  exact List.mem_cons_self

/-- A child of a node can be detached. -/
theorem Rewrites.detach (h : A.Holds q s) (hc : c ∈ s.children) :
    Rewrites A (A.detach c.slot) q s (s.removeChildren fun u => Layout.slot u == c.slot) where
  holds := by
    obtain ⟨hnew, hdistinct⟩ := h.distinct_children
    have hne : s.slot ≠ c.slot := fun heq => hnew
      (heq ▸ Layout.slots_subset_forestSlots hc (Layout.slot_mem_slots c))
    have hsub := List.filter_sublist (p := fun u : Layout => !(u.slot == c.slot)) (l := s.children)
    refine .intro ?_ ?_ (fun hi => hnew ((Layout.forestSlots_sublist hsub).subset hi))
      (hdistinct.sublist (Layout.forestSlots_sublist hsub))
    · show (A.detach c.slot)[s.slot]? = _
      rw [getElem?_detach_parent (h.child hc) rfl h.root hne, List.filter_map]
      rfl
    · intro x hx
      have hx' := Layout.forestCells_subset hsub.subset hx
      have hi : x.1 ∈ forestSlots (s.children.filter fun u => !(u.slot == c.slot)) := by
        rw [← Layout.map_fst_forestCells s.slot]
        exact List.mem_map_of_mem hx
      rw [getElem?_detach_of_ne (h.child hc) rfl]
      · exact h.children x hx'
      · exact fun heq => Layout.not_mem_forestSlots_filter hdistinct hc (heq ▸ hi)
      · exact fun heq => hnew (heq ▸ (Layout.forestSlots_sublist hsub).subset hi)
  slot := rfl
  within i hi := by
    rw [Layout.slots_eq] at hi ⊢
    refine .inl ?_
    rcases List.mem_cons.1 hi with rfl | hi
    · exact List.mem_cons_self
    · exact List.mem_cons_of_mem _ ((Layout.forestSlots_sublist List.filter_sublist).subset hi)
  frame i _ hnot := by
    rw [Layout.slots_eq, List.mem_cons, not_or] at hnot
    refine getElem?_detach_of_ne (h.child hc) rfl (fun heq => hnot.2 ?_) hnot.1
    exact heq ▸ Layout.slots_subset_forestSlots hc (Layout.slot_mem_slots c)
  length_le := Nat.le_of_eq length_detach.symm

/-! ## Relabelling all that stands below -/

/-- Changes the labels of the nodes in some slots. -/
def relabelIn (A : Arena) (f : NodeLabel → NodeLabel) (is : List Nat) : Arena :=
  A.mapIdx fun i c => if i ∈ is then { c with label := f c.label } else c

@[simp] theorem length_relabelIn {is : List Nat} : (A.relabelIn f is).length = A.length :=
  List.length_mapIdx

theorem getElem?_relabelIn {is : List Nat} : (A.relabelIn f is)[i]?
    = (A[i]?).map fun c => if i ∈ is then { c with label := f c.label } else c :=
  List.getElem?_mapIdx

theorem relabelIn_nil : A.relabelIn f [] = A := by
  refine List.ext_getElem? fun j => ?_
  rw [getElem?_relabelIn]
  simp

theorem relabelIn_congr {is js : List Nat} (h : ∀ j, j ∈ is ↔ j ∈ js) :
    A.relabelIn f is = A.relabelIn f js := by
  unfold relabelIn
  simp only [h]

theorem relabelIn_relabel {is : List Nat} (h : i ∉ is) :
    (A.relabel i f).relabelIn f is = A.relabelIn f (i :: is) := by
  refine List.ext_getElem? fun j => ?_
  rw [getElem?_relabelIn, getElem?_relabelIn]
  by_cases hj : j = i
  · subst hj
    cases hc : A[j]? with
    | none => rw [relabel, List.getElem?_modify_eq, hc]; rfl
    | some c =>
      rw [getElem?_relabel_self hc, Option.map_some, Option.map_some, if_neg h,
        if_pos List.mem_cons_self]
  · rw [getElem?_relabel_of_ne hj]
    simp [hj]

/-! ## Traversing -/

variable {t : Layout} {fuel : Nat}

/-- Changes the labels of the cells on a stack and of all cells that are reached from them, the
children of a cell taking its place on the stack. Gives the slots in which this has been done. As
many cells can be visited as `fuel` says. -/
def forEach (f : NodeLabel → NodeLabel) : (fuel : Nat) → List Nat → Arena →
    Option (List Nat × Arena)
  | _, [], A => some ([], A)
  | 0, _ :: _, _ => none
  | fuel + 1, i :: stack, A => do
    let c ← (A.relabel i f)[i]?
    let (visited, B) ← forEach f fuel (c.children.reverse ++ stack) (A.relabel i f)
    return (i :: visited, B)

/-- Relabelling a cell elsewhere. -/
theorem Keeps.relabel (h : A.Keeps t) (hi : i ∉ t.slots) : (A.relabel i f).Keeps t := by
  refine h.congr fun j hj => ?_
  have hne : j ≠ i := fun heq => hi (heq ▸ hj)
  unfold view
  rw [getElem?_relabel_of_ne hne]

/-- A traversal comes to every cell that is kept below the stack once. -/
theorem forEach_eq (hkeeps : ∀ t ∈ ts, A.Keeps t) (hnodup : (Layout.forestSlots ts).Nodup)
    (hfuel : (Layout.forestSlots ts).length ≤ fuel) :
    ∃ visited, forEach f fuel (ts.map Layout.slot) A = some (visited, A.relabelIn f visited)
      ∧ visited.Perm (Layout.forestSlots ts) := by
  induction fuel generalizing ts A with
  | zero =>
    have hnil : Layout.forestSlots ts = [] := List.length_eq_zero_iff.1 (Nat.le_zero.1 hfuel)
    cases ts with
    | nil => exact ⟨[], by rw [relabelIn_nil]; rfl, .nil⟩
    | cons t ts =>
      rw [Layout.forestSlots_cons, Layout.slots_eq] at hnil
      cases hnil
  | succ fuel ih =>
    cases ts with
    | nil => exact ⟨[], by rw [relabelIn_nil]; rfl, .nil⟩
    | cons t ts =>
      obtain ⟨ht, hts⟩ := List.forall_mem_cons.1 hkeeps
      obtain ⟨-, hchildren⟩ := keeps_iff.1 ht
      obtain ⟨above, hc⟩ := ht.exists_cell
      -- the children take the place of the node on the stack, the last one on top
      have hperm : (Layout.forestSlots (t.children.reverse ++ ts)).Perm
          (Layout.forestSlots (t.children ++ ts)) :=
        Layout.forestSlots_perm ((List.reverse_perm t.children).append_right ts)
      have hall : Layout.forestSlots (t :: ts)
          = t.slot :: Layout.forestSlots (t.children ++ ts) := by
        rw [Layout.forestSlots_cons, Layout.slots_eq, Layout.forestSlots_append, List.cons_append]
      rw [hall] at hnodup hfuel
      obtain ⟨hnew, hrest⟩ := List.nodup_cons.1 hnodup
      have hkept : ∀ u ∈ t.children.reverse ++ ts, (A.relabel t.slot f).Keeps u := by
        intro u hu
        have hmem : u ∈ t.children ++ ts :=
          ((List.reverse_perm t.children).append_right ts).mem_iff.1 hu
        have hold : A.Keeps u := List.forall_mem_append.2 ⟨hchildren, hts⟩ u hmem
        exact hold.relabel fun hi => hnew (Layout.slots_subset_forestSlots hmem hi)
      have hlength : (Layout.forestSlots (t.children.reverse ++ ts)).length ≤ fuel := by
        rw [hperm.length_eq]
        rw [List.length_cons] at hfuel
        omega
      obtain ⟨visited, hrun, hvisited⟩ := ih hkept (hperm.symm.nodup hrest) hlength
      have hfresh : t.slot ∉ visited := fun hmem => hnew ((hvisited.trans hperm).mem_iff.1 hmem)
      refine ⟨t.slot :: visited, ?_, ?_⟩
      · rw [List.map_append, List.map_reverse] at hrun
        rw [List.map_cons, forEach, getElem?_relabel_self hc]
        show (forEach f fuel ((t.children.map Layout.slot).reverse ++ ts.map Layout.slot)
          (A.relabel t.slot f)).bind _ = _
        rw [hrun, Option.bind_some, relabelIn_relabel hfresh]
        rfl
      · rw [hall]
        exact (hvisited.trans hperm).cons t.slot

end Arena

namespace Layout

variable {s : Layout} {ts : List Layout} {q : Nat} {f : NodeLabel → NodeLabel}

/-- Relabels a node and all nodes below it, where they are. -/
def relabelAll (f : NodeLabel → NodeLabel) (s : Layout) : Layout := s.map fun x => (x.1, f x.2)

theorem cells_relabelAll (q : Nat) (s : Layout) : (s.relabelAll f).cells q
    = (s.cells q).map fun x => (x.1, { x.2 with label := f x.2.label }) := by
  induction s using Tree.induct generalizing q with
  | step s ih =>
    have forest : ∀ (ts : List Layout) (q : Nat), ts ⊆ s.children →
        forestCells q (ts.map (relabelAll f))
          = (forestCells q ts).map fun x => (x.1, { x.2 with label := f x.2.label }) := by
      intro ts q hts
      induction ts with
      | nil => rw [List.map_nil, forestCells]; rfl
      | cons t ts ihts =>
        obtain ⟨ht, hts⟩ := List.cons_subset.1 hts
        rw [List.map_cons, forestCells, forestCells, List.map_append, ih t ht, ihts hts]
    have hchildren : (relabelAll f s).children = s.children.map (relabelAll f) := by
      obtain ⟨a, cs⟩ := s
      exact Tree.mapForest_eq _ cs
    have hroot : slot (relabelAll f s) = slot s ∧ (relabelAll f s).label.2 = f s.label.2 := by
      obtain ⟨a, cs⟩ := s
      exact ⟨rfl, rfl⟩
    have hslots : s.children.map (slot ∘ relabelAll f) = s.children.map slot := by
      refine List.map_congr_left fun c _ => ?_
      obtain ⟨a, cs⟩ := c
      rfl
    rw [cells_eq, cells_eq, hchildren, hroot.1, hroot.2, List.map_cons, List.map_map, hslots,
      forest s.children (slot s) (List.Subset.refl _)]

theorem slots_relabelAll (s : Layout) : (s.relabelAll f).slots = s.slots := by
  unfold slots relabelAll
  rw [Tree.preorder_map, List.map_map]
  rfl

/-! ## The nodes that are kept -/

section Nodes

variable {P : Node → Bool} {p : List Nat}

@[simp] theorem label_node (s : Layout) : (node s).label = s.label.2 := by
  obtain ⟨a, cs⟩ := s
  rfl

@[simp] theorem children_node (s : Layout) : (node s).children = s.children.map node := by
  obtain ⟨a, cs⟩ := s
  exact Tree.mapForest_eq _ cs

theorem forestSubtree?_map_node (ts : List Layout) (p : List Nat) :
    Tree.forestSubtree? (ts.map node) p = (Tree.forestSubtree? ts p).map node :=
  Tree.forestSubtree?_map Prod.snd ts p

theorem map_node_forestReplace (s : Layout) (ts : List Layout) (p : List Nat) :
    (Tree.forestReplace s ts p).map node = Tree.forestReplace (node s) (ts.map node) p :=
  Tree.map_forestReplace Prod.snd s ts p

theorem node_addChildren (s : Layout) (ts : List Layout) :
    node (s.addChildren ts) = (node s).addChildren (ts.map node) :=
  Tree.map_addChildren Prod.snd s ts

theorem node_relabelAll (s : Layout) : node (relabelAll f s) = (node s).map f := by
  unfold node relabelAll
  rw [Tree.map_map, Tree.map_map]
  rfl

theorem node_removeChildren (s : Layout) :
    node (s.removeChildren (P ∘ node)) = (node s).removeChildren P := by
  obtain ⟨a, cs⟩ := s
  unfold node
  rw [Tree.removeChildren, Tree.map, Tree.map, Tree.removeChildren, Tree.mapForest_eq,
    Tree.mapForest_eq, List.filter_map]
  rfl

end Nodes

end Layout

namespace Arena

open Layout (forestCells forestSlots)

variable {A B C : Arena} {s s' : Layout} {ts : List Layout} {p : List Nat} {i q : Nat}
  {f : NodeLabel → NodeLabel}

theorem Rewrites.relabelAll (h : A.Holds q s) :
    Rewrites A (A.relabelIn f s.slots) q s (s.relabelAll f) where
  holds := by
    refine ⟨?_, (Layout.slots_relabelAll s).symm ▸ h.distinct⟩
    intro x hx
    rw [Layout.cells_relabelAll] at hx
    obtain ⟨y, hy, rfl⟩ := List.mem_map.1 hx
    have hi : y.1 ∈ s.slots := by
      rw [← Layout.map_fst_cells q]
      exact List.mem_map_of_mem hy
    rw [getElem?_relabelIn, h.has y hy, Option.map_some, if_pos hi]
  slot := by
    obtain ⟨a, cs⟩ := s
    rfl
  within i hi := .inl (Layout.slots_relabelAll s ▸ hi)
  frame i hi hnot := by
    rw [getElem?_relabelIn, List.getElem?_eq_getElem hi, Option.map_some, if_neg hnot]
  length_le := Nat.le_of_eq length_relabelIn.symm

/-! ## Rewriting a node that has been added -/

/-- The arena holds each node that has been added, and rewriting it leaves an arena to which nodes
have been added. -/
theorem Appends.exists_focus (h : Appends A B q ts) (hs : Tree.forestSubtree? ts p = some s) :
    ∃ parent, B.Holds parent s ∧ ∀ C s', Rewrites B C parent s s' →
      Appends A C q (Tree.forestReplace s' ts p) := by
  obtain ⟨parent, outside, hcells, hreplace⟩ := Layout.exists_forestCells_perm (q := q) hs
  have hslots := hcells.map Prod.fst
  rw [Layout.map_fst_forestCells, List.map_append, Layout.map_fst_cells] at hslots
  have hnodup := hslots.nodup h.distinct
  obtain ⟨hout, hin, hapart⟩ := List.nodup_append.1 hnodup
  obtain ⟨hasout, hasin⟩ := has_append.1 (h.has.perm hcells)
  have hfresh : ∀ i ∈ s.slots, A.length ≤ i := fun i hi =>
    h.fresh i (hslots.mem_iff.2 (List.mem_append_right _ hi))
  refine ⟨parent, ⟨hasin, hin⟩, fun C s' hr => ?_⟩
  have hcells' := hreplace s' hr.slot
  have hslots' := hcells'.map Prod.fst
  rw [Layout.map_fst_forestCells, List.map_append, Layout.map_fst_cells] at hslots'
  have hbeside : ∀ i ∈ outside.map Prod.fst, i < B.length ∧ i ∉ s.slots := fun i hi =>
    ⟨hasout.lt hi, fun hi' => hapart i hi i hi' rfl⟩
  have := h.length_le
  refine ⟨?_, fun i hi hne => ?_, Nat.le_trans h.length_le hr.length_le, ?_, ?_, ?_⟩
  · obtain ⟨c, hc, hb⟩ := h.parent
    have hq := h.lt
    have hnot : q ∉ s.slots := fun hi => by
      have := hfresh q hi
      omega
    refine ⟨c, hc, ?_⟩
    rw [hr.frame q (by omega) hnot, hb, Layout.map_slot_forestReplace hs hr.slot]
  · have hnot : i ∉ s.slots := fun hi' => by
      have := hfresh i hi'
      omega
    exact (hr.frame i (by omega) hnot).trans (h.frame i hi hne)
  · refine Has.perm ?_ hcells'.symm
    refine has_append.2 ⟨hasout.congr fun i hi => ?_, hr.holds.has⟩
    exact hr.frame i (hbeside i hi).1 (hbeside i hi).2
  · intro i hi
    rcases List.mem_append.1 (hslots'.mem_iff.1 hi) with hi | hi
    · exact h.fresh i (hslots.mem_iff.2 (List.mem_append_left _ hi))
    · rcases hr.within i hi with hi | hle
      · exact hfresh i hi
      · omega
  · refine hslots'.symm.nodup (List.nodup_append.2 ⟨hout, hr.holds.distinct, ?_⟩)
    rintro i hi _ hi' rfl
    rcases hr.within i hi' with hi' | hle
    · exact (hbeside i hi).2 hi'
    · have := (hbeside i hi).1
      omega

end Arena

end YangSchema
