import YangSchema.Proofs.Arena
import YangSchema.Proofs.Rows

/-!
# Arenas of modules

The arena of a module begins with a cell for its root. Nodes are added under others, one by one or
with all that stands below them, they are relabelled, and they are detached. In all arenas that come
about in this way (`Arena.Reached`) the children of a cell are in later cells that name it as their
parent (`Arena.IsForest`). What is reached from the root is therefore kept as a tree, each cell
once, while a detached cell and what is reached from it have no part in it
(`Arena.Reached.exists_layout`).
-/

namespace YangSchema

/-- Adds a child to a cell. -/
def Cell.addChild (c : Cell) (i : Nat) : Cell := { c with children := c.children ++ [i] }

theorem Layout.forestSlots_map (g : Nat → Layout) (is : List Nat) :
    Layout.forestSlots (is.map g) = is.flatMap fun i => (g i).slots := by
  induction is with
  | nil => rfl
  | cons i is ih => rw [List.map_cons, Layout.forestSlots_cons, ih, List.flatMap_cons]

namespace Arena

variable {A B : Arena} {i j q : Nat} {c d : Cell} {l : NodeLabel} {f : NodeLabel → NodeLabel}
  {t : Layout}

/-- Puts a copy of a node, with all that stands below it, behind the children of a parent. -/
def graft (A : Arena) (parent : Nat) (n : Node) : Arena :=
  A.modify parent (·.addChild A.length)
    ++ (n.rowsFrom A.length (some parent)).map fun r => ⟨r.label, r.children, r.parent⟩

/-- The arenas that come about while the nodes of a module are built and changed. -/
inductive Reached : Arena → Prop
  | root (l : NodeLabel) : Reached [⟨l, [], none⟩]
  | add {A : Arena} (parent : Nat) (l : NodeLabel) (h : Reached A) : Reached (A.add parent l)
  | graft {A : Arena} (parent : Nat) (n : Node) (h : Reached A) : Reached (A.graft parent n)
  | relabel {A : Arena} (i : Nat) (f : NodeLabel → NodeLabel) (h : Reached A) :
      Reached (A.relabel i f)
  | detach {A : Arena} (i : Nat) (h : Reached A) : Reached (A.detach i)

/-- The first cell has no parent, and the children of a cell are in later cells that name it as
their parent, in ascending order. -/
structure IsForest (A : Arena) : Prop where
  root : ∃ c : Cell, A[0]? = some c ∧ c.parent = none
  child : ∀ (i : Nat) (c : Cell), A[i]? = some c → ∀ j ∈ c.children,
    i < j ∧ ∃ d : Cell, A[j]? = some d ∧ d.parent = some i
  ascending : ∀ (i : Nat) (c : Cell), A[i]? = some c → c.children.Pairwise (· < ·)

/-! ## What every step keeps -/

theorem isForest_root (l : NodeLabel) : IsForest [⟨l, [], none⟩] where
  root := ⟨_, rfl, rfl⟩
  child i c h j hj := by
    cases i with
    | zero => cases h; exact absurd hj List.not_mem_nil
    | succ i => cases h
  ascending i c h := by
    cases i with
    | zero => cases h; exact .nil
    | succ i => cases h

/-- A node that is added is a grafted one without children. -/
theorem add_eq_graft : A.add q l = A.graft q (Tree.leaf l) := by
  unfold add graft Tree.leaf
  rw [Tree.rowsFrom, Tree.forestRowsFrom]
  rfl

/-- The cells that there were stay, the parent of what is grafted with a child more. -/
theorem getElem?_graft_of_lt {n : Node} (hi : i < A.length) :
    (A.graft q n)[i]? = (A[i]?).map fun c => if q = i then c.addChild A.length else c := by
  unfold graft
  rw [List.getElem?_append_left (by rwa [List.length_modify]), List.getElem?_modify]
  split <;> rfl

/-- The others are the cells of the copy. -/
theorem exists_row_of_graft {n : Node} (hi : A.length ≤ i) (hc : (A.graft q n)[i]? = some c) :
    ∃ r ∈ n.rowsFrom A.length (some q), r.id = i ∧ c = ⟨r.label, r.children, r.parent⟩ := by
  unfold graft at hc
  rw [List.getElem?_append_right (by rwa [List.length_modify]), List.length_modify,
    List.getElem?_map] at hc
  obtain ⟨r, hr, rfl⟩ := Option.map_eq_some_iff.1 hc
  have hid := Tree.id_of_getElem? hr
  exact ⟨r, List.mem_of_getElem? hr, by omega, rfl⟩

theorem getElem?_graft_of_mem {n : Node} {r : Tree.Row NodeLabel}
    (hr : r ∈ n.rowsFrom A.length (some q)) :
    (A.graft q n)[r.id]? = some ⟨r.label, r.children, r.parent⟩ := by
  obtain ⟨k, hk⟩ := List.mem_iff_getElem?.1 hr
  have hid := Tree.id_of_getElem? hk
  unfold graft
  rw [List.getElem?_append_right (by rw [List.length_modify]; omega), List.length_modify, hid,
    Nat.add_sub_cancel_left, List.getElem?_map, hk]
  rfl

theorem getElem?_relabel (A : Arena) (i : Nat) (f : NodeLabel → NodeLabel) (j : Nat) :
    (A.relabel i f)[j]?
      = (A[j]?).map fun c => if i = j then { c with label := f c.label } else c := by
  unfold relabel
  rw [List.getElem?_modify]
  split <;> rfl

/-- A cell without a parent stays as it is. -/
theorem detach_eq_self (h : (A[i]?).bind Cell.parent = none) : A.detach i = A := by
  unfold detach
  rw [h]

/-- A cell that is detached loses its parent, and the parent loses it. -/
theorem getElem?_detach {p : Nat} (hparent : (A[i]?).bind Cell.parent = some p) (j : Nat) :
    (A.detach i)[j]? = (A[j]?).map fun c =>
      { c with
        parent := if i = j then none else c.parent
        children := if p = j then c.children.filter (· != i) else c.children } := by
  unfold detach
  rw [hparent]
  dsimp only
  rw [List.getElem?_modify, List.getElem?_modify]
  cases A[j]? with
  | none => simp
  | some c => split <;> split <;> rfl

namespace IsForest

theorem graft (h : A.IsForest) (q : Nat) (n : Node) : (A.graft q n).IsForest where
  root := by
    obtain ⟨c, hc, hparent⟩ := h.root
    rw [getElem?_graft_of_lt (List.getElem?_eq_some_iff.1 hc).1, hc]
    refine ⟨_, rfl, ?_⟩
    split <;> exact hparent
  child i c hc j hj := by
    rcases Nat.lt_or_ge i A.length with hi | hi
    · rw [getElem?_graft_of_lt hi] at hc
      obtain ⟨c, hold, rfl⟩ := Option.map_eq_some_iff.1 hc
      have hcase : j ∈ c.children ∨ q = i ∧ j = A.length := by
        split at hj
        · rcases List.mem_append.1 hj with hj | hj
          · exact .inl hj
          · exact .inr ⟨‹q = i›, List.mem_singleton.1 hj⟩
        · exact .inl hj
      rcases hcase with hj | ⟨rfl, rfl⟩
      · obtain ⟨hlt, d, hd, hparent⟩ := h.child i c hold j hj
        rw [getElem?_graft_of_lt (List.getElem?_eq_some_iff.1 hd).1, hd]
        refine ⟨hlt, _, rfl, ?_⟩
        split <;> exact hparent
      · exact ⟨hi, _, getElem?_graft_of_mem Tree.headRow_mem, rfl⟩
    · obtain ⟨r, hr, rfl, rfl⟩ := exists_row_of_graft hi hc
      obtain ⟨y, hy, rfl, hparent, hlt⟩ := Tree.child_of_mem hr hj
      exact ⟨hlt, _, getElem?_graft_of_mem hy, hparent⟩
  ascending i c hc := by
    rcases Nat.lt_or_ge i A.length with hi | hi
    · rw [getElem?_graft_of_lt hi] at hc
      obtain ⟨c, hold, rfl⟩ := Option.map_eq_some_iff.1 hc
      have hbefore : ∀ j ∈ c.children, j < A.length := fun j hj => by
        obtain ⟨_, d, hd, _⟩ := h.child i c hold j hj
        exact (List.getElem?_eq_some_iff.1 hd).1
      split
      · refine List.pairwise_append.2 ⟨h.ascending i c hold, List.pairwise_singleton _ _, ?_⟩
        exact fun j hj k hk => List.mem_singleton.1 hk ▸ hbefore j hj
      · exact h.ascending i c hold
    · obtain ⟨r, hr, rfl, rfl⟩ := exists_row_of_graft hi hc
      exact Tree.pairwise_children hr

/-- Cells that lose children, but none that goes on naming them as its parent, and get other labels
are still those of a forest. -/
theorem of_sublist {B : Arena} (h : A.IsForest)
    (hroot : ∃ c : Cell, B[0]? = some c ∧ c.parent = none)
    (hcell : ∀ (i : Nat) (c : Cell), B[i]? = some c →
      ∃ d : Cell, A[i]? = some d ∧ c.children.Sublist d.children)
    (hchild : ∀ (i j : Nat) (c d : Cell), B[i]? = some c → j ∈ c.children → A[j]? = some d →
      d.parent = some i → ∃ e : Cell, B[j]? = some e ∧ e.parent = some i) : B.IsForest where
  root := hroot
  child i c hc j hj := by
    obtain ⟨d, hd, hsub⟩ := hcell i c hc
    obtain ⟨hlt, e, he, hparent⟩ := h.child i d hd j (hsub.subset hj)
    exact ⟨hlt, hchild i j c e hc hj he hparent⟩
  ascending i c hc := by
    obtain ⟨d, hd, hsub⟩ := hcell i c hc
    exact (h.ascending i d hd).sublist hsub

theorem relabel (h : A.IsForest) (i : Nat) (f : NodeLabel → NodeLabel) :
    (A.relabel i f).IsForest := by
  refine h.of_sublist ?_ (fun j c hc => ?_) fun j k c d _ _ hd hparent => ?_
  · obtain ⟨c, hc, hparent⟩ := h.root
    rw [getElem?_relabel, hc]
    refine ⟨_, rfl, ?_⟩
    split <;> exact hparent
  · rw [getElem?_relabel] at hc
    obtain ⟨d, hd, rfl⟩ := Option.map_eq_some_iff.1 hc
    refine ⟨d, hd, ?_⟩
    split <;> exact List.Sublist.refl _
  · rw [getElem?_relabel, hd]
    refine ⟨_, rfl, ?_⟩
    split <;> exact hparent

/-- A node that is detached is no child any more, and has no parent. -/
theorem detach (h : A.IsForest) (i : Nat) : (A.detach i).IsForest := by
  cases hparent : (A[i]?).bind Cell.parent with
  | none => rwa [detach_eq_self hparent]
  | some p =>
    refine h.of_sublist ?_ (fun j c hc => ?_) fun j k c d hc hk hd hdparent => ?_
    · obtain ⟨c, hc, hroot⟩ := h.root
      rw [getElem?_detach hparent, hc]
      refine ⟨_, rfl, ?_⟩
      show (if i = 0 then none else c.parent) = none
      rw [hroot, ite_self]
    · rw [getElem?_detach hparent] at hc
      obtain ⟨d, hd, rfl⟩ := Option.map_eq_some_iff.1 hc
      refine ⟨d, hd, ?_⟩
      dsimp only
      split
      · exact List.filter_sublist
      · exact List.Sublist.refl _
    · rw [getElem?_detach hparent] at hc ⊢
      obtain ⟨c, _, rfl⟩ := Option.map_eq_some_iff.1 hc
      -- the detached node was a child of its parent only
      have hne : i ≠ k := by
        rintro rfl
        rw [hd] at hparent
        cases hdparent.symm.trans hparent
        dsimp only at hk
        rw [if_pos rfl] at hk
        exact absurd rfl (bne_iff_ne.1 (List.mem_filter.1 hk).2)
      rw [hd]
      exact ⟨_, rfl, by dsimp only; rwa [if_neg hne]⟩

end IsForest

theorem Reached.isForest (h : A.Reached) : A.IsForest := by
  induction h with
  | root l => exact isForest_root l
  | add q l _ ih => exact add_eq_graft ▸ ih.graft q (Tree.leaf l)
  | graft q n _ ih => exact ih.graft q n
  | relabel i f _ ih => exact ih.relabel i f
  | detach i _ ih => exact ih.detach i

/-! ## What is reached from a cell -/

/-- The cells in the slots of a layout have its labels, and name its children. -/
def Keeps (A : Arena) (t : Layout) : Prop :=
  ∀ x ∈ t.subtrees, A[Layout.slot x]?.map (fun c => (c.label, c.children))
    = some (x.label.2, x.children.map Layout.slot)

theorem Keeps.child {t u : Layout} (h : A.Keeps t) (hu : u ∈ t.children) : A.Keeps u :=
  fun x hx => h x (Tree.mem_subtrees_of_mem_child hu hx)

/-- What an arena has in a slot apart from the parent. -/
def view (A : Arena) (i : Nat) : Option (NodeLabel × List Nat) :=
  A[i]?.map fun c => (c.label, c.children)

theorem keeps_iff : A.Keeps t ↔ A.view t.slot = some (t.label.2, t.children.map Layout.slot)
    ∧ ∀ u ∈ t.children, A.Keeps u := by
  constructor
  · intro h
    exact ⟨h t (Tree.mem_subtrees_self t), fun u hu => h.child hu⟩
  · rintro ⟨hself, hchildren⟩ x hx
    rcases Tree.mem_subtrees.1 hx with rfl | ⟨u, hu, hx⟩
    · exact hself
    · exact hchildren u hu x hx

/-- The cell in the slot of a layout that is kept. -/
theorem Keeps.exists_cell (h : A.Keeps t) :
    ∃ parent, A[t.slot]? = some ⟨t.label.2, t.children.map Layout.slot, parent⟩ := by
  obtain ⟨⟨label, children, parent⟩, hc, hcell⟩ := Option.map_eq_some_iff.1 (keeps_iff.1 h).1
  obtain ⟨rfl, rfl⟩ := Prod.mk.inj hcell
  exact ⟨parent, hc⟩

theorem Keeps.congr (h : A.Keeps t) (hsame : ∀ i ∈ t.slots, B.view i = A.view i) : B.Keeps t :=
  fun x hx => (hsame _ (Layout.slot_mem_of_mem_subtrees hx)).trans (h x hx)

/-- An arena that has the cells of a node keeps it. -/
theorem Has.keeps (h : A.Has (t.cells q)) : A.Keeps t := by
  induction t using Tree.induct generalizing q with
  | step t ih =>
    rw [Layout.cells_eq] at h
    obtain ⟨hself, hchildren⟩ := has_cons.1 h
    refine keeps_iff.2 ⟨?_, fun u hu => ?_⟩
    · unfold view
      rw [hself]
      rfl
    · have hcells : A.Has (Layout.cells (Layout.slot t) u) := fun x hx =>
        hchildren x (Layout.mem_forestCells.2 ⟨u, hu, hx⟩)
      exact ih u hu hcells

theorem IsForest.parent_unique (h : A.IsForest) {k : Nat} (hi : A.IsChild i k)
    (hj : A.IsChild j k) : i = j := by
  obtain ⟨c, hc, hk⟩ := hi
  obtain ⟨d, hd, hk'⟩ := hj
  obtain ⟨_, e, he, hparent⟩ := h.child i c hc k hk
  obtain ⟨_, e', he', hparent'⟩ := h.child j d hd k hk'
  cases he.symm.trans he'
  exact Option.some.inj (hparent.symm.trans hparent')

theorem IsForest.lt_of_isChild (h : A.IsForest) (hchild : A.IsChild i j) : i < j := by
  obtain ⟨c, hc, hj⟩ := hchild
  exact (h.child i c hc j hj).1

theorem IsForest.le_of_reaches (h : A.IsForest) (hreach : Relation.ReflTransGen A.IsChild i j) :
    i ≤ j := by
  induction hreach with
  | refl => exact Nat.le_refl i
  | tail _ hchild ih => exact Nat.le_trans ih (Nat.le_of_lt (h.lt_of_isChild hchild))

/-- A child of a cell that is reached from another child is that one. -/
theorem IsForest.eq_of_reaches_sibling (h : A.IsForest) {k : Nat} (hi : A.IsChild k i)
    (hj : A.IsChild k j) (hreach : Relation.ReflTransGen A.IsChild i j) : i = j := by
  rcases Relation.ReflTransGen.cases_tail hreach with heq | ⟨m, him, hmj⟩
  · exact heq.symm
  · cases h.parent_unique hj hmj
    exact absurd (h.le_of_reaches him) (Nat.not_le.2 (h.lt_of_isChild hi))

/-- What is reached from one child of a cell is not reached from another. -/
theorem IsForest.eq_of_reaches (h : A.IsForest) {k m : Nat} (hi : A.IsChild k i)
    (hj : A.IsChild k j) (him : Relation.ReflTransGen A.IsChild i m)
    (hjm : Relation.ReflTransGen A.IsChild j m) : i = j := by
  -- upwards from a cell there is only one way
  have hup : Relator.RightUnique (Function.swap A.IsChild) := fun _ _ _ => h.parent_unique
  rcases Relation.ReflTransGen.total_of_right_unique hup him.swap hjm.swap with hij | hji
  · exact (h.eq_of_reaches_sibling hj hi (Relation.reflTransGen_swap.1 hij)).symm
  · exact h.eq_of_reaches_sibling hi hj (Relation.reflTransGen_swap.1 hji)

/-- What is reached from a cell is kept as a tree, each cell once. -/
structure LaysOut (A : Arena) (i : Nat) (t : Layout) : Prop where
  slot : t.slot = i
  keeps : A.Keeps t
  nodup : t.slots.Nodup
  mem_iff : ∀ j, j ∈ t.slots ↔ Relation.ReflTransGen A.IsChild i j

/-- Where what is reached from its children is, what is reached from a cell is a tree. -/
theorem IsForest.laysOut_node (h : A.IsForest) (hc : A[i]? = some c) {g : Nat → Layout}
    (hg : ∀ j ∈ c.children, A.LaysOut j (g j)) :
    A.LaysOut i ⟨(i, c.label), c.children.map g⟩ where
  slot := rfl
  keeps x hx := by
    have hslots : (c.children.map g).map Layout.slot = c.children := by
      rw [List.map_map]
      exact (List.map_congr_left fun j hj => (hg j hj).slot).trans (List.map_id _)
    rcases Tree.mem_subtrees.1 hx with rfl | ⟨u, hu, hx⟩
    · show A[i]?.map _ = some (c.label, (c.children.map g).map Layout.slot)
      rw [hc, hslots]
      rfl
    · obtain ⟨j, hj, rfl⟩ := List.mem_map.1 hu
      exact (hg j hj).keeps x hx
  nodup := by
    have hchild : ∀ j ∈ c.children, A.IsChild i j := fun j hj => ⟨c, hc, hj⟩
    rw [Layout.slots_eq, Layout.forestSlots_map, List.nodup_cons, List.nodup_flatMap]
    refine ⟨fun hmem => ?_, fun j hj => (hg j hj).nodup, ?_⟩
    · obtain ⟨j, hj, hi⟩ := List.mem_flatMap.1 hmem
      have hle := h.le_of_reaches (((hg j hj).mem_iff i).1 hi)
      exact absurd hle (Nat.not_le.2 (h.lt_of_isChild (hchild j hj)))
    · refine (h.ascending i c hc).imp_of_mem fun {j k} hj hk hlt m hjm hkm => ?_
      have heq := h.eq_of_reaches (hchild j hj) (hchild k hk) (((hg j hj).mem_iff m).1 hjm)
        (((hg k hk).mem_iff m).1 hkm)
      omega
  mem_iff k := by
    rw [Layout.slots_eq, Layout.forestSlots_map, List.mem_cons, List.mem_flatMap,
      Relation.ReflTransGen.cases_head_iff]
    refine or_congr eq_comm ⟨?_, ?_⟩
    · rintro ⟨j, hj, hk⟩
      exact ⟨j, ⟨c, hc, hj⟩, ((hg j hj).mem_iff k).1 hk⟩
    · rintro ⟨j, ⟨d, hd, hj⟩, hreach⟩
      cases hc.symm.trans hd
      exact ⟨j, hj, ((hg j hj).mem_iff k).2 hreach⟩

theorem IsForest.exists_layout (h : A.IsForest) (hi : i < A.length) :
    ∃ t : Layout, A.LaysOut i t := by
  -- children are in later cells, so there are fewer cells behind them
  induction hn : A.length - i using Nat.strong_induction_on generalizing i with
  | _ n ih =>
    have hcell : A[i]? = some A[i] := List.getElem?_eq_getElem hi
    have hbelow : ∀ j ∈ A[i].children, ∃ t : Layout, A.LaysOut j t := by
      intro j hj
      obtain ⟨hlt, d, hd, _⟩ := h.child i _ hcell j hj
      have hlength := (List.getElem?_eq_some_iff.1 hd).1
      exact ih (A.length - j) (by omega) hlength rfl
    choose! g hg using hbelow
    exact ⟨_, h.laysOut_node hcell hg⟩

/-- In the arena of a module, what is reached from the root is kept as a tree, each cell once. -/
theorem Reached.exists_layout (h : A.Reached) : ∃ t : Layout, A.LaysOut 0 t := by
  obtain ⟨c, hc, _⟩ := h.isForest.root
  exact h.isForest.exists_layout (List.getElem?_eq_some_iff.1 hc).1

end Arena

end YangSchema
