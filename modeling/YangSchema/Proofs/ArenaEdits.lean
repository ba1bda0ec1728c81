import YangSchema.Proofs.Detached

/-!
# Editing an arena

A copy is taken from one arena and put into the same or another one: `Arena.snapshot` copies a cell
and what is reached from it to a table that counts from its own root, and `Arena.graftRows` puts the
table behind the cells of an arena, with all places moved by as many. Such copies are taken and put,
single nodes are added, and nodes are detached, in any order (`Arena.Edited`).

Besides what holds of all arenas of modules (`Arena.IsForest`), in these a cell names a parent only
as long as the parent names it (`Arena.HasParents`). So the two directions always agree, and since a
child is behind its parent, everything that follows children comes to an end: a copy is that of a
tree (`Arena.Keeps.snapshot_eq`), and a traversal comes to each cell below a cell once
(`Arena.forEach_eq`).
-/

namespace YangSchema

namespace Tree

variable {α : Type} {n k q : Nat}

theorem map_id (t : Tree α) : t.map id = t := by
  induction t using induct with
  | step t ih =>
    obtain ⟨a, cs⟩ := t
    rw [map, mapForest_eq, List.map_congr_left ih, List.map_id']
    rfl

/-! ## Moving a table -/

/-- Moves a row behind `k` others. The root comes under the row `q`. -/
def Row.shift (k q : Nat) (r : Row α) : Row α :=
  ⟨r.id + k, some ((r.parent.map (· + k)).getD q), r.children.map (· + k), r.label⟩

theorem map_rootPlaces (n k : Nat) (ts : List (Tree α)) :
    (rootPlaces n ts).map (· + k) = rootPlaces (n + k) ts := by
  induction ts generalizing n with
  | nil => rfl
  | cons t ts ih => rw [rootPlaces, rootPlaces, List.map_cons, ih, Nat.add_right_comm]

mutual

/-- The rows of a tree are moved to those at another place. -/
theorem map_shift_rowsFrom (k q : Nat) : ∀ (n : Nat) (parent : Option Nat) (t : Tree α),
    (t.rowsFrom n parent).map (Row.shift k q)
      = t.rowsFrom (n + k) (some ((parent.map (· + k)).getD q))
  | n, parent, ⟨a, cs⟩ => by
    rw [rowsFrom, rowsFrom, List.map_cons, map_shift_forestRowsFrom k q (n + 1) (some n) cs,
      Nat.add_right_comm, Row.shift, map_rootPlaces, Nat.add_right_comm]
    rfl

theorem map_shift_forestRowsFrom (k q : Nat) :
    ∀ (n : Nat) (parent : Option Nat) (ts : List (Tree α)),
      (forestRowsFrom n parent ts).map (Row.shift k q)
        = forestRowsFrom (n + k) (some ((parent.map (· + k)).getD q)) ts
  | n, parent, [] => by rw [forestRowsFrom, forestRowsFrom]; rfl
  | n, parent, t :: ts => by
    rw [forestRowsFrom, forestRowsFrom, List.map_append, map_shift_rowsFrom k q n parent t,
      map_shift_forestRowsFrom k q (n + t.size) parent ts, Nat.add_right_comm]

end

end Tree

namespace Arena

variable {A B C : Arena} {t u x : Layout} {ts : List Layout} {n : Node} {p : List Nat}
  {i j q k fuel : Nat} {f : NodeLabel → NodeLabel} {rows : List (Tree.Row NodeLabel)}

/-! ## Copies -/

/-- Copies a cell and what is reached from it behind the rows that there are. The row of a cell
comes first; it gets its children as their rows are complete. -/
def copyRows (A : Arena) : Nat → Nat → Option Nat → List (Tree.Row NodeLabel) →
    Option (List (Tree.Row NodeLabel))
  | 0, _, _, _ => none
  | fuel + 1, i, parent, out => do
    let c ← A[i]?
    c.children.foldlM
      (fun rows j => (copyRows A fuel j (some out.length) rows).map fun next =>
        next.modify out.length (Tree.Row.addChild rows.length))
      (out ++ [⟨out.length, parent, [], c.label⟩])

/-- The table of a cell and what is reached from it, which counts from this cell. -/
def snapshot (A : Arena) (i : Nat) : Option (List (Tree.Row NodeLabel)) :=
  copyRows A A.length i none []

/-- Puts a table behind the cells that there are, its root behind the children of a cell. Gives the
slot of the root, too. -/
def graftRows (A : Arena) (parent : Nat) (rows : List (Tree.Row NodeLabel)) : Arena × Nat :=
  let copied := (rows.map (Tree.Row.shift A.length parent)).map fun r =>
    (⟨r.label, r.children, r.parent⟩ : Cell)
  ((A ++ copied).modify parent (·.addChild A.length), A.length)

theorem Keeps.copyRows_eq (h : A.Keeps t) (hfuel : t.size ≤ fuel)
    (out : List (Tree.Row NodeLabel)) (parent : Option Nat) :
    copyRows A fuel t.slot parent out = some (out ++ t.node.rowsFrom out.length parent) := by
  induction t using Tree.induct generalizing fuel out parent with
  | step t ih =>
    obtain ⟨fuel, rfl, hsize⟩ := Tree.exists_fuel hfuel
    obtain ⟨above, hc⟩ := Keeps.exists_cell h
    have hbelow := Tree.foldlM_addChild (fun j rows => copyRows A fuel j (some out.length) rows)
      Layout.slot Layout.node out parent t.label.2 []
      fun u hu rows => ih u hu (h.child hu) (hsize u hu) rows (some out.length)
    rw [← Tree.leaf, Tree.rowsFrom_leaf, List.nil_append, ← Layout.node_eq] at hbelow
    rw [copyRows, hc]
    exact hbelow

/-- The copy of what is kept as a tree is the table of the tree. -/
theorem LaysOut.snapshot_eq (h : A.LaysOut i t) : A.snapshot i = some t.node.rows := by
  unfold snapshot
  rw [← h.slot, h.keeps.copyRows_eq h.size_le]
  rfl

theorem lt_of_snapshot (h : A.snapshot i = some rows) : i < A.length := by
  unfold snapshot at h
  cases hlength : A.length with
  | zero =>
    rw [hlength, copyRows] at h
    cases h
  | succ fuel =>
    rw [hlength, copyRows] at h
    obtain ⟨c, hc, _⟩ := Option.bind_eq_some_iff.1 h
    exact hlength ▸ (List.getElem?_eq_some_iff.1 hc).1

/-- Putting the table of a tree is grafting the tree. -/
theorem graftRows_eq (hq : q < A.length) (n : Node) :
    A.graftRows q n.rows = (A.graft q n, A.length) := by
  have hcells (cells : List Cell) : (A ++ cells).modify q (·.addChild A.length)
      = A.modify q (·.addChild A.length) ++ cells := by
    rw [List.modify_eq_take_cons_drop (by rw [List.length_append]; omega),
      List.modify_eq_take_cons_drop hq, List.take_append_of_le_length (Nat.le_of_lt hq),
      List.getElem_append_left hq, List.drop_append_of_le_length hq, List.append_assoc,
      List.cons_append]
  unfold graftRows graft Tree.rows
  dsimp only
  rw [Tree.map_shift_rowsFrom, Nat.zero_add, hcells]
  rfl

/-! ## The edits -/

/-- The arenas that come about by edits: a node without children is added under a cell, one is
detached, a label is changed, or a copy of a cell in an edited arena is put under a cell. A parent
is always a cell that is there already; a cell put under its own slot would be its own child. -/
inductive Edited : Arena → Prop
  | root (l : NodeLabel) : Edited [⟨l, [], none⟩]
  | add {A : Arena} (h : Edited A) (parent : Nat) (hparent : parent < A.length) (l : NodeLabel) :
      Edited (A.add parent l)
  | detach {A : Arena} (h : Edited A) (i : Nat) : Edited (A.detach i)
  | relabel {A : Arena} (h : Edited A) (i : Nat) (f : NodeLabel → NodeLabel) :
      Edited (A.relabel i f)
  | graft {A B : Arena} (h : Edited A) (h' : Edited B) (parent : Nat)
      (hparent : parent < A.length) (i : Nat) (rows : List (Tree.Row NodeLabel))
      (hrows : B.snapshot i = some rows) : Edited (A.graftRows parent rows).1

/-- Whatever a cell names as its parent has it as a child. -/
def HasParents (A : Arena) : Prop :=
  ∀ (j : Nat) (d : Cell), A[j]? = some d → ∀ i, d.parent = some i → A.IsChild i j

theorem hasParents_root (l : NodeLabel) : HasParents [⟨l, [], none⟩] := by
  intro j d hd i hparent
  cases j with
  | zero =>
    cases hd
    cases hparent
  | succ j => cases hd

theorem isChild_graft (hchild : A.IsChild i j) (q : Nat) (n : Node) :
    (A.graft q n).IsChild i j := by
  obtain ⟨c, hc, hj⟩ := hchild
  refine ⟨_, (getElem?_graft_of_lt (List.getElem?_eq_some_iff.1 hc).1).trans (by rw [hc]; rfl), ?_⟩
  split
  · exact List.mem_append_left _ hj
  · exact hj

theorem isChild_graft_new (hq : q < A.length) (n : Node) : (A.graft q n).IsChild q A.length := by
  refine ⟨_, (getElem?_graft_of_lt hq).trans (by rw [List.getElem?_eq_getElem hq]; rfl), ?_⟩
  show A.length ∈ (if q = q then A[q].addChild A.length else A[q]).children
  rw [if_pos rfl]
  exact List.mem_append_right _ (List.mem_singleton.2 rfl)

namespace HasParents

theorem graft (h : A.HasParents) (hq : q < A.length) (n : Node) : (A.graft q n).HasParents := by
  intro j d hd i hparent
  rcases Nat.lt_or_ge j A.length with hj | hj
  · rw [getElem?_graft_of_lt hj] at hd
    obtain ⟨c, hc, rfl⟩ := Option.map_eq_some_iff.1 hd
    refine isChild_graft (h j c hc i ?_) q n
    split at hparent <;> exact hparent
  · obtain ⟨r, hr, rfl, rfl⟩ := exists_row_of_graft hj hd
    rcases Tree.parent_of_mem hr with rfl | ⟨y, hy, hyparent, hmem⟩
    · -- the root of the copy is under the cell where it has been put
      cases hparent
      exact isChild_graft_new hq n
    · cases hyparent.symm.trans hparent
      exact ⟨_, getElem?_graft_of_mem hy, hmem⟩

theorem relabel (h : A.HasParents) (k : Nat) (f : NodeLabel → NodeLabel) :
    (A.relabel k f).HasParents := by
  intro j d hd i hparent
  rw [getElem?_relabel] at hd
  obtain ⟨c, hc, rfl⟩ := Option.map_eq_some_iff.1 hd
  have hold : c.parent = some i := by
    split at hparent <;> exact hparent
  obtain ⟨e, he, hmem⟩ := h j c hc i hold
  refine ⟨_, (getElem?_relabel A k f i).trans (by rw [he]; rfl), ?_⟩
  split <;> exact hmem

/-- The cell that is detached names no parent any more, and no other one is taken from its own. -/
theorem detach (h : A.HasParents) (k : Nat) : (A.detach k).HasParents := by
  cases hk : (A[k]?).bind Cell.parent with
  | none => rwa [detach_eq_self hk]
  | some p =>
    intro j d hd i hparent
    rw [getElem?_detach hk] at hd
    obtain ⟨c, hc, rfl⟩ := Option.map_eq_some_iff.1 hd
    dsimp only at hparent
    split at hparent
    · cases hparent
    · rename_i hne
      obtain ⟨e, he, hmem⟩ := h j c hc i hparent
      refine ⟨_, (getElem?_detach hk i).trans (by rw [he]; rfl), ?_⟩
      dsimp only
      split
      · exact List.mem_filter.2 ⟨hmem, bne_iff_ne.2 (Ne.symm hne)⟩
      · exact hmem

end HasParents

/-- What every edit keeps. -/
theorem Edited.isForest_and_hasParents (h : A.Edited) : A.IsForest ∧ A.HasParents := by
  induction h with
  | root l => exact ⟨isForest_root l, hasParents_root l⟩
  | add _ q hq l ih =>
    rw [add_eq_graft]
    exact ⟨ih.1.graft q (Tree.leaf l), ih.2.graft hq (Tree.leaf l)⟩
  | detach _ i ih => exact ⟨ih.1.detach i, ih.2.detach i⟩
  | relabel _ i f ih => exact ⟨ih.1.relabel i f, ih.2.relabel i f⟩
  | graft _ _ q hq i rows hrows ih ih' =>
    -- the copy is that of a tree, since it has been taken from a forest
    obtain ⟨t, ht⟩ := ih'.1.exists_layout (lt_of_snapshot hrows)
    cases ht.snapshot_eq.symm.trans hrows
    rw [graftRows_eq hq]
    exact ⟨ih.1.graft q t.node, ih.2.graft hq t.node⟩

theorem Edited.isForest (h : A.Edited) : A.IsForest := h.isForest_and_hasParents.1

/-- The children of a cell are in later cells, and parents and children agree. -/
structure Linked (A : Arena) : Prop where
  lt : ∀ i j, A.IsChild i j → i < j ∧ j < A.length
  parent_iff : ∀ (j : Nat) (d : Cell), A[j]? = some d → ∀ i, d.parent = some i ↔ A.IsChild i j
  once : ∀ (i : Nat) (c : Cell), A[i]? = some c → ∀ j ∈ c.children, c.children.count j = 1

theorem Edited.linked (h : A.Edited) : A.Linked where
  lt i j hchild := by
    obtain ⟨c, hc, hj⟩ := hchild
    obtain ⟨hlt, d, hd, _⟩ := h.isForest.child i c hc j hj
    exact ⟨hlt, (List.getElem?_eq_some_iff.1 hd).1⟩
  parent_iff j d hd i := by
    refine ⟨h.isForest_and_hasParents.2 j d hd i, ?_⟩
    rintro ⟨c, hc, hj⟩
    obtain ⟨_, e, he, hparent⟩ := h.isForest.child i c hc j hj
    cases hd.symm.trans he
    exact hparent
  once i c hc j hj := by
    have hnodup : c.children.Nodup := (h.isForest.ascending i c hc).imp Nat.ne_of_lt
    exact List.count_eq_one_of_mem hnodup hj

/-! ## What is grafted -/

/-- The layout of a node in consecutive slots. -/
def layoutFrom (k : Nat) (n : Node) : Layout := n.indexed Prod.mk k

theorem map_slot_indexedForest (k : Nat) (ns : List Node) :
    (Tree.indexedForest Prod.mk k ns).map Layout.slot = Tree.rootPlaces k ns := by
  induction ns generalizing k with
  | nil => rfl
  | cons n ns ih =>
    obtain ⟨a, ms⟩ := n
    rw [Tree.indexedForest, Tree.rootPlaces, List.map_cons, ih]
    rfl

theorem slot_layoutFrom (k : Nat) (n : Node) : (layoutFrom k n).slot = k := by
  obtain ⟨a, ns⟩ := n
  rfl

theorem node_layoutFrom (k : Nat) (n : Node) : (layoutFrom k n).node = n := by
  have hmap := Tree.map_indexed (f := Prod.mk) (g := Prod.snd) (k := id) (fun _ _ => rfl) k n
  rw [Tree.map_id] at hmap
  exact hmap

mutual

/-- A tree whose rows an arena has is kept in their slots. -/
theorem keeps_layoutFrom : ∀ (k : Nat) (parent : Option Nat) (n : Node),
    (∀ r ∈ n.rowsFrom k parent, A.view r.id = some (r.label, r.children)) →
    A.Keeps (layoutFrom k n)
  | k, parent, ⟨a, ns⟩, h => by
    rw [Tree.rowsFrom, List.forall_mem_cons] at h
    refine keeps_iff.2 ⟨?_, keeps_indexedForest (k + 1) (some k) ns h.2⟩
    show A.view k = some (a, (Tree.indexedForest Prod.mk (k + 1) ns).map Layout.slot)
    rw [map_slot_indexedForest]
    exact h.1

theorem keeps_indexedForest : ∀ (k : Nat) (parent : Option Nat) (ns : List Node),
    (∀ r ∈ Tree.forestRowsFrom k parent ns, A.view r.id = some (r.label, r.children)) →
    ∀ u ∈ Tree.indexedForest Prod.mk k ns, A.Keeps u
  | _, _, [], _ => fun _ hu => absurd hu List.not_mem_nil
  | k, parent, n :: ns, h => by
    rw [Tree.forestRowsFrom, List.forall_mem_append] at h
    rw [Tree.indexedForest, List.forall_mem_cons]
    exact ⟨keeps_layoutFrom k parent n h.1, keeps_indexedForest (k + n.size) parent ns h.2⟩

end

/-- Below the slot of its root, an arena has what has been grafted. -/
theorem IsForest.laysOut_graft (h : A.IsForest) (q : Nat) (n : Node) :
    (A.graft q n).LaysOut A.length (layoutFrom A.length n) := by
  have hkeeps : (A.graft q n).Keeps (layoutFrom A.length n) := by
    refine keeps_layoutFrom A.length (some q) n fun r hr => ?_
    unfold view
    rw [getElem?_graft_of_mem hr]
    rfl
  have hlaid := (h.graft q n).laysOut_of_keeps hkeeps
  rwa [slot_layoutFrom] at hlaid

/-- Grafting is adding a child to the node in the tree that is reached from a cell. -/
theorem LaysOut.graft (h : A.IsForest) (ht : A.LaysOut i t) (hx : t.subtree? p = some x)
    (n : Node) : (A.graft x.slot n).LaysOut i
      (Tree.replace (x.addChild (layoutFrom A.length n)) p t) := by
  have hxkeeps := ht.keeps.subtree? hx
  have hsub : x.slots.Sublist t.slots := Layout.slots_sublist_of_subtree? hx
  have hviews (j : Nat) (hj : j ∈ t.slots) : (A.graft x.slot n).view j = (A.view j).map fun v =>
      (v.1, if x.slot = j then v.2 ++ [A.length] else v.2) := by
    unfold view
    rw [getElem?_graft_of_lt (ht.keeps.lt hj), Option.map_map, Option.map_map]
    congr 1
    funext c
    dsimp only [Function.comp_apply]
    split <;> rfl
  have hsame (j : Nat) (hj : j ∈ t.slots) (hne : j ≠ x.slot) :
      (A.graft x.slot n).view j = A.view j := by
    rw [hviews j hj]
    simp [hne.symm]
  have hbelow := hxkeeps.children_of_view (ht.nodup.sublist hsub)
    fun j hj hne => hsame j (hsub.subset hj) hne
  have hadded : (A.graft x.slot n).Keeps (x.addChild (layoutFrom A.length n)) := by
    refine keeps_iff.2 ⟨?_, List.forall_mem_append.2 ⟨hbelow, ?_⟩⟩
    · show (A.graft x.slot n).view x.slot
        = some (x.label.2, (x.children ++ [layoutFrom A.length n]).map Layout.slot)
      rw [hviews _ (hsub.subset (Layout.slot_mem_slots x)), (keeps_iff.1 hxkeeps).1,
        Option.map_some, if_pos rfl, List.map_append, List.map_singleton, slot_layoutFrom]
    · exact List.forall_mem_singleton.2 (h.laysOut_graft x.slot n).keeps
  exact ht.replace (h.graft x.slot n) hx rfl hadded hsame

/-- What comes about when a node is grafted: its cells begin at a slot, and in every tree that is
reached from a cell the parent gets it as its last child. -/
structure Grafts (A : Arena) (parent : Nat) (n : Node) (B : Arena) (k : Nat) : Prop where
  copy : ∃ u : Layout, B.LaysOut k u ∧ u.node = n
  /-- The cells that there were stay, the parent with a child more. -/
  frame : ∀ j < A.length, B[j]? = (A[j]?).map fun c => if parent = j then c.addChild k else c
  tree : ∀ (i : Nat) (t x : Layout) (p : List Nat), A.LaysOut i t → t.subtree? p = some x →
    x.slot = parent → ∃ t' : Layout, B.LaysOut i t'
      ∧ t'.node = Tree.replace (Tree.addChild x.node n) p t.node

theorem IsForest.grafts (h : A.IsForest) (q : Nat) (n : Node) :
    A.Grafts q n (A.graft q n) A.length where
  copy := ⟨_, h.laysOut_graft q n, node_layoutFrom A.length n⟩
  frame j hj := getElem?_graft_of_lt hj
  tree i t x p ht hx hslot := by
    subst hslot
    refine ⟨_, ht.graft h hx n, ?_⟩
    have hchild : Layout.node (x.addChild (layoutFrom A.length n)) = Tree.addChild x.node n := by
      have hmap := Tree.map_addChildren Prod.snd x [layoutFrom A.length n]
      have hnode := node_layoutFrom A.length n
      unfold Layout.node at hnode
      rw [List.map_singleton, hnode] at hmap
      exact hmap
    rw [← hchild]
    exact Tree.map_replace ..

/-! ## Edited arenas -/

/-- **An arena stays a forest under all edits.** Its children are in range and behind their parents,
and a cell names a parent exactly if it is one of its children, and then once. A copy of a cell,
from this arena or another one, is the table of the tree that is reached from the cell; put under a
parent, it gives this tree again, with the same labels and in the same order, below the slot that
comes back, and of the cells that there were only the parent changes, by one more child; so in every
tree that is reached from a cell, the parent gets the copy as its last child. And a traversal ends,
with as much fuel as there are cells, when it has come to all cells that are reached from its start,
to each of them once, and has changed their labels and nothing else. -/
theorem edits_keep_forest (h : A.Edited) :
    A.Linked
      ∧ (∀ B : Arena, B.Edited → ∀ i < B.length, ∀ q < A.length, ∃ (t : Layout)
        (rows : List (Tree.Row NodeLabel)), B.LaysOut i t ∧ B.snapshot i = some rows
          ∧ A.Grafts q t.node (A.graftRows q rows).1 (A.graftRows q rows).2)
      ∧ ∀ (f : NodeLabel → NodeLabel), ∀ i < A.length, ∃ visited : List Nat,
        forEach f A.length [i] A = some (visited, A.relabelIn f visited)
          ∧ visited.Nodup ∧ ∀ j, j ∈ visited ↔ Relation.ReflTransGen A.IsChild i j := by
  refine ⟨h.linked, fun B hB i hi q hq => ?_, fun f i hi => ?_⟩
  · obtain ⟨t, ht⟩ := hB.isForest.exists_layout hi
    refine ⟨t, t.node.rows, ht, ht.snapshot_eq, ?_⟩
    rw [graftRows_eq hq]
    exact h.isForest.grafts q t.node
  · obtain ⟨t, ht⟩ := h.isForest.exists_layout hi
    have hslots : Layout.forestSlots [t] = t.slots := by
      rw [Layout.forestSlots_cons, Layout.forestSlots_nil, List.append_nil]
    have hfuel : (Layout.forestSlots [t]).length ≤ A.length := by
      rw [hslots, Layout.slots, List.length_map, Tree.length_preorder]
      exact ht.size_le
    have hvisits : ∃ visited, forEach f A.length ([t].map Layout.slot) A
        = some (visited, A.relabelIn f visited) ∧ visited.Perm (Layout.forestSlots [t]) :=
      forEach_eq (List.forall_mem_singleton.2 ht.keeps) (by rw [hslots]; exact ht.nodup) hfuel
    obtain ⟨visited, hrun, hvisited⟩ := hvisits
    rw [hslots] at hvisited
    rw [List.map_singleton, ht.slot] at hrun
    refine ⟨visited, hrun, hvisited.symm.nodup ht.nodup, fun j => ?_⟩
    rw [hvisited.mem_iff, ht.mem_iff]

/-- A module with two containers, of which the first one has a leaf. -/
def twoContainers : Arena :=
  let label (kind : Kind) (argument : String) : NodeLabel :=
    { keyword := .ofString kind.keyword, argument := some argument, location := .synthetic "test"
      binding := .builtin kind, module := ⟨"m", none⟩, source := ⟨"m", none⟩, augmenting := false
      addedByUses := false, conditions := [], type := none }
  Arena.add (Arena.add (Arena.add [⟨label .module "m", [], none⟩] 0 (label .container "a")) 1
    (label .leaf "x")) 0 (label .container "b")

/-- The first container is put into the second one and then detached, and the leaf that has been
copied with it is visited. -/
theorem edits_keep_forest_twoContainers : ∃ (rows : List (Tree.Row NodeLabel)) (B : Arena),
    twoContainers.snapshot 1 = some rows ∧ rows.length = 2
      ∧ B = (twoContainers.graftRows 3 rows).1.detach 1 ∧ B.Linked
      ∧ (∃ u : Layout, (twoContainers.graftRows 3 rows).1.LaysOut 4 u ∧ u.node.rows = rows)
      ∧ ∃ visited, forEach id B.length [3] B = some (visited, B.relabelIn id visited)
        ∧ visited.Nodup := by
  have hA : twoContainers.Edited :=
    .add (.add (.add (.root _) 0 (by decide) _) 1 (by decide) _) 0 (by decide) _
  obtain ⟨t, rows, ht, hrows, hgrafts⟩ :=
    (edits_keep_forest hA).2.1 twoContainers hA 1 (by decide) 3 (by decide)
  obtain ⟨u, hu, hnode⟩ := hgrafts.copy
  have hB : ((twoContainers.graftRows 3 rows).1.detach 1).Edited :=
    .detach (.graft hA hA 3 (by decide) 1 rows hrows) 1
  have hlength : rows.length = 2 := by
    have hcount : (twoContainers.snapshot 1).map List.length = some 2 := by decide +kernel
    rw [hrows] at hcount
    exact Option.some.inj hcount
  have hthree : 3 < ((twoContainers.graftRows 3 rows).1.detach 1).length := by
    have hfour : twoContainers.length = 4 := rfl
    rw [length_detach]
    simp only [graftRows, List.length_modify, List.length_append, List.length_map]
    omega
  obtain ⟨visited, hrun, hnodup, -⟩ := (edits_keep_forest hB).2.2 id 3 hthree
  refine ⟨rows, _, hrows, hlength, rfl, (edits_keep_forest hB).1, ⟨u, hu, ?_⟩, visited, hrun,
    hnodup⟩
  rw [hnode]
  exact Option.some.inj (ht.snapshot_eq.symm.trans hrows)

end Arena

end YangSchema
