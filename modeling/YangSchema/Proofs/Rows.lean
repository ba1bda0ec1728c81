import Mathlib.Data.Nat.Basic
import Mathlib.Logic.Relation
import YangSchema.Proofs.Trees

/-!
# The flat table of a tree

The rows of a tree are numbered in preorder (`Tree.map_id_rowsFrom`), and what they say of parents
and of children agrees (`Tree.isTable_rows`). `Tree.HasAt` says that a table has the rows of some
tree at a place. It has the rows of every node there where the node is (`Tree.HasAt.exists_of_mem`),
and so what is read from a table by its numbers alone follows the tree: the rows below a node are a
block behind it, a traversal with a stack goes through that block, and reading row after row gives
the tree back.
-/

namespace YangSchema

namespace Tree

variable {α β : Type} {t c x : Tree α} {cs ds pre post : List (Tree α)} {rows : List (Row α)}
  {r y : Row α} {n m fuel : Nat} {parent : Option Nat}

/-! ## Rows of a list of trees -/

/-- The row of the root of a tree. -/
def headRow (n : Nat) (parent : Option Nat) (t : Tree α) : Row α :=
  ⟨n, parent, rootPlaces (n + 1) t.children, t.label⟩

theorem rowsFrom_eq (n : Nat) (parent : Option Nat) (t : Tree α) :
    t.rowsFrom n parent
      = t.headRow n parent :: forestRowsFrom (n + 1) (some n) t.children := by
  obtain ⟨a, cs⟩ := t
  rw [rowsFrom, headRow]

theorem size_eq (t : Tree α) : t.size = 1 + forestSize t.children := by
  obtain ⟨a, cs⟩ := t
  rw [size]

theorem headRow_mem : t.headRow n parent ∈ t.rowsFrom n parent := by
  rw [rowsFrom_eq]
  exact List.mem_cons_self

theorem forestSize_append : forestSize (cs ++ ds) = forestSize cs + forestSize ds := by
  induction cs with
  | nil => rw [List.nil_append, forestSize, Nat.zero_add]
  | cons c cs ih => rw [List.cons_append, forestSize, forestSize, ih, Nat.add_assoc]

theorem rootPlaces_append :
    rootPlaces n (cs ++ ds) = rootPlaces n cs ++ rootPlaces (n + forestSize cs) ds := by
  induction cs generalizing n with
  | nil => rfl
  | cons c cs ih => rw [List.cons_append, rootPlaces, ih, rootPlaces, forestSize, Nat.add_assoc,
      List.cons_append]

theorem forestRowsFrom_append : forestRowsFrom n parent (cs ++ ds)
    = forestRowsFrom n parent cs ++ forestRowsFrom (n + forestSize cs) parent ds := by
  induction cs generalizing n with
  | nil => rw [List.nil_append, forestRowsFrom, forestSize]; rfl
  | cons c cs ih => rw [List.cons_append, forestRowsFrom, ih, forestRowsFrom, forestSize,
      Nat.add_assoc, List.append_assoc]

/-- A row of a list of trees is one of a tree, which stands behind the trees before it. -/
theorem mem_forestRowsFrom : r ∈ forestRowsFrom n parent cs
    ↔ ∃ pre c post, cs = pre ++ c :: post ∧ r ∈ c.rowsFrom (n + forestSize pre) parent := by
  constructor
  · intro h
    induction cs generalizing n with
    | nil =>
      rw [forestRowsFrom] at h
      exact absurd h List.not_mem_nil
    | cons c cs ih =>
      rw [forestRowsFrom] at h
      rcases List.mem_append.1 h with h | h
      · exact ⟨[], c, cs, rfl, h⟩
      · obtain ⟨pre, d, post, rfl, h⟩ := ih h
        exact ⟨c :: pre, d, post, rfl, by rwa [forestSize, ← Nat.add_assoc]⟩
  · rintro ⟨pre, c, post, rfl, h⟩
    rw [forestRowsFrom_append, forestRowsFrom]
    exact List.mem_append_right _ (List.mem_append_left _ h)

theorem mem_rootPlaces : m ∈ rootPlaces n cs
    ↔ ∃ pre c post, cs = pre ++ c :: post ∧ m = n + forestSize pre := by
  constructor
  · intro h
    induction cs generalizing n with
    | nil => exact absurd h List.not_mem_nil
    | cons c cs ih =>
      rw [rootPlaces] at h
      rcases List.mem_cons.1 h with rfl | h
      · exact ⟨[], c, cs, rfl, rfl⟩
      · obtain ⟨pre, d, post, rfl, h⟩ := ih h
        exact ⟨c :: pre, d, post, rfl, by rwa [forestSize, ← Nat.add_assoc]⟩
  · rintro ⟨pre, c, post, rfl, rfl⟩
    rw [rootPlaces_append, rootPlaces]
    exact List.mem_append_right _ List.mem_cons_self

/-- The roots of a list of trees stand one behind the other. -/
theorem pairwise_rootPlaces (n : Nat) (cs : List (Tree α)) :
    (rootPlaces n cs).Pairwise (· < ·) := by
  induction cs generalizing n with
  | nil => exact .nil
  | cons c cs ih =>
    rw [rootPlaces]
    refine List.pairwise_cons.2 ⟨fun m hm => ?_, ih _⟩
    obtain ⟨pre, _, _, _, rfl⟩ := mem_rootPlaces.1 hm
    have := size_pos c
    omega

/-! ## Numbers and labels -/

mutual

/-- The rows of a tree are numbered one after the other. -/
theorem map_id_rowsFrom : ∀ (n : Nat) (parent : Option Nat) (t : Tree α),
    (t.rowsFrom n parent).map Row.id = List.range' n t.size
  | n, parent, ⟨a, cs⟩ => by
    rw [rowsFrom, size, List.map_cons, map_id_forestRowsFrom (n + 1) (some n) cs, Nat.add_comm 1,
      List.range'_succ]

theorem map_id_forestRowsFrom : ∀ (n : Nat) (parent : Option Nat) (ts : List (Tree α)),
    (forestRowsFrom n parent ts).map Row.id = List.range' n (forestSize ts)
  | n, parent, [] => by rw [forestRowsFrom, forestSize]; rfl
  | n, parent, t :: ts => by
    rw [forestRowsFrom, forestSize, List.map_append, map_id_rowsFrom n parent t,
      map_id_forestRowsFrom (n + t.size) parent ts, List.range'_append_1]

end

mutual

/-- The rows of a tree have its labels in preorder. -/
theorem map_label_rowsFrom : ∀ (n : Nat) (parent : Option Nat) (t : Tree α),
    (t.rowsFrom n parent).map Row.label = t.preorder
  | n, parent, ⟨a, cs⟩ => by
    rw [rowsFrom, preorder, List.map_cons, map_label_forestRowsFrom (n + 1) (some n) cs]

theorem map_label_forestRowsFrom : ∀ (n : Nat) (parent : Option Nat) (ts : List (Tree α)),
    (forestRowsFrom n parent ts).map Row.label = forestPreorder ts
  | n, parent, [] => by rw [forestRowsFrom, forestPreorder]; rfl
  | n, parent, t :: ts => by
    rw [forestRowsFrom, forestPreorder, List.map_append, map_label_rowsFrom n parent t,
      map_label_forestRowsFrom (n + t.size) parent ts]

end

theorem length_rowsFrom (n : Nat) (parent : Option Nat) (t : Tree α) :
    (t.rowsFrom n parent).length = t.size := by
  rw [← List.length_map Row.id, map_id_rowsFrom, List.length_range']

theorem length_forestRowsFrom (n : Nat) (parent : Option Nat) (ts : List (Tree α)) :
    (forestRowsFrom n parent ts).length = forestSize ts := by
  rw [← List.length_map Row.id, map_id_forestRowsFrom, List.length_range']

theorem id_mem_range (h : r ∈ t.rowsFrom n parent) : n ≤ r.id ∧ r.id < n + t.size := by
  have hid := List.mem_map_of_mem (f := Row.id) h
  rw [map_id_rowsFrom] at hid
  exact List.mem_range'_1.1 hid

/-! ## Parents and children -/

/-- The row of a node other than the root names a row that names it as a child. -/
theorem parent_of_mem (h : y ∈ t.rowsFrom n parent) : y = t.headRow n parent
    ∨ ∃ r ∈ t.rowsFrom n parent, y.parent = some r.id ∧ y.id ∈ r.children := by
  induction t using induct generalizing n parent with
  | step t ih =>
    rw [rowsFrom_eq] at h ⊢
    rcases List.mem_cons.1 h with rfl | h
    · exact .inl rfl
    · obtain ⟨pre, c, post, hcs, h⟩ := mem_forestRowsFrom.1 h
      right
      rcases ih c (hcs ▸ List.mem_append_right _ List.mem_cons_self) h with rfl | ⟨r, hr, hy⟩
      · exact ⟨_, List.mem_cons_self, rfl, mem_rootPlaces.2 ⟨pre, c, post, hcs, rfl⟩⟩
      · exact ⟨r, List.mem_cons_of_mem _ (mem_forestRowsFrom.2 ⟨pre, c, post, hcs, hr⟩), hy⟩

/-- What a row names as a child has a row that names it as its parent. -/
theorem child_of_mem (h : r ∈ t.rowsFrom n parent) (hm : m ∈ r.children) :
    ∃ y ∈ t.rowsFrom n parent, y.id = m ∧ y.parent = some r.id ∧ r.id < m := by
  induction t using induct generalizing n parent with
  | step t ih =>
    rw [rowsFrom_eq] at h ⊢
    rcases List.mem_cons.1 h with rfl | h
    · obtain ⟨pre, c, post, hcs, rfl⟩ := mem_rootPlaces.1 hm
      refine ⟨_, List.mem_cons_of_mem _ (mem_forestRowsFrom.2 ⟨pre, c, post, hcs, headRow_mem⟩),
        rfl, rfl, ?_⟩
      show n < n + 1 + forestSize pre
      omega
    · obtain ⟨pre, c, post, hcs, h⟩ := mem_forestRowsFrom.1 h
      obtain ⟨y, hy, hrest⟩ := ih c (hcs ▸ List.mem_append_right _ List.mem_cons_self) h
      exact ⟨y, List.mem_cons_of_mem _ (mem_forestRowsFrom.2 ⟨pre, c, post, hcs, hy⟩), hrest⟩

/-- A table whose rows are numbered in their order and agree on who is whose child. -/
structure IsTable (rows : List (Row α)) : Prop where
  id_eq : ∀ (i : Nat) (r : Row α), rows[i]? = some r → r.id = i
  /-- The first row is the only one without a parent. -/
  parent_eq_none : ∀ r ∈ rows, r.parent = none ↔ r.id = 0
  parent_mem : ∀ r ∈ rows, ∀ p, r.parent = some p → ∃ q ∈ rows, q.id = p
  child_mem : ∀ r ∈ rows, ∀ m ∈ r.children, ∃ y ∈ rows, y.id = m
  parent_iff : ∀ r ∈ rows, ∀ y ∈ rows, y.parent = some r.id ↔ y.id ∈ r.children
  /-- Children stand behind their parent, in their order, and none of them twice. -/
  ascending : ∀ r ∈ rows, (r.id :: r.children).Pairwise (· < ·)

theorem id_of_getElem? {i : Nat} (h : (t.rowsFrom n parent)[i]? = some r) : r.id = n + i := by
  have hid := @List.getElem?_map _ _ Row.id (t.rowsFrom n parent) i
  have hi : i < t.size := length_rowsFrom n parent t ▸ (List.getElem?_eq_some_iff.1 h).1
  rw [map_id_rowsFrom, h, List.getElem?_range' hi, Nat.one_mul] at hid
  exact (Option.some.inj hid).symm

theorem getElem?_rows (h : r ∈ t.rows) : t.rows[r.id]? = some r := by
  obtain ⟨i, hi⟩ := List.mem_iff_getElem?.1 h
  rw [id_of_getElem? hi, Nat.zero_add, hi]

theorem eq_of_id_eq (hr : r ∈ t.rows) (hy : y ∈ t.rows) (h : r.id = y.id) : r = y :=
  Option.some.inj ((getElem?_rows hr).symm.trans (h ▸ getElem?_rows hy))

theorem pairwise_children (h : r ∈ t.rowsFrom n parent) : r.children.Pairwise (· < ·) := by
  induction t using induct generalizing n parent with
  | step t ih =>
    rw [rowsFrom_eq] at h
    rcases List.mem_cons.1 h with rfl | h
    · exact pairwise_rootPlaces _ _
    · obtain ⟨pre, c, post, hcs, h⟩ := mem_forestRowsFrom.1 h
      exact ih c (hcs ▸ List.mem_append_right _ List.mem_cons_self) h

/-- The rows of a tree are such a table. -/
theorem isTable_rows (t : Tree α) : IsTable t.rows where
  id_eq i r h := (id_of_getElem? h).trans (Nat.zero_add i)
  parent_eq_none r hr := by
    rcases parent_of_mem hr with rfl | ⟨q, hq, hparent, hmem⟩
    · exact iff_of_true rfl rfl
    · obtain ⟨_, _, _, _, hlt⟩ := child_of_mem hq hmem
      exact iff_of_false (fun h => nomatch hparent.symm.trans h) (Nat.ne_zero_of_lt hlt)
  parent_mem r hr p hp := by
    rcases parent_of_mem hr with rfl | ⟨q, hq, hparent, _⟩
    · cases hp
    · exact ⟨q, hq, Option.some.inj (hparent.symm.trans hp)⟩
  child_mem r hr m hm := by
    obtain ⟨y, hy, hid, _⟩ := child_of_mem hr hm
    exact ⟨y, hy, hid⟩
  parent_iff r hr y hy := by
    constructor
    · intro h
      rcases parent_of_mem hy with rfl | ⟨q, hq, hparent, hmem⟩
      · cases h
      · rwa [eq_of_id_eq hr hq (Option.some.inj (h.symm.trans hparent))]
    · intro h
      obtain ⟨z, hz, hid, hparent, _⟩ := child_of_mem hr h
      rwa [eq_of_id_eq hy hz hid.symm]
  ascending r hr := by
    refine List.pairwise_cons.2 ⟨fun m hm => ?_, pairwise_children hr⟩
    obtain ⟨_, _, _, _, hlt⟩ := child_of_mem hr hm
    exact hlt

/-! ## Trees in a table -/

/-- A table has the rows of a tree, and the next row behind them is not below the root of the
tree. -/
def HasAt (rows : List (Row α)) (n : Nat) (parent : Option Nat) (t : Tree α) : Prop :=
  ∃ before after, rows = before ++ (t.rowsFrom n parent ++ after) ∧ before.length = n
    ∧ ∀ y ∈ after.head?, ∀ p ∈ y.parent, p < n

/-- A table has the rows of a list of trees, one behind the other. -/
def HasForestAt (rows : List (Row α)) (n : Nat) (parent : Option Nat) (cs : List (Tree α)) : Prop :=
  ∀ pre c post, cs = pre ++ c :: post → HasAt rows (n + forestSize pre) parent c

theorem hasAt_rows (t : Tree α) : HasAt t.rows 0 none t :=
  ⟨[], [], (List.append_nil _).symm, rfl, fun _ h => nomatch h⟩

namespace HasAt

theorem getElem? (h : HasAt rows n parent t) : rows[n]? = some (t.headRow n parent) := by
  obtain ⟨before, after, rfl, rfl, _⟩ := h
  rw [rowsFrom_eq, List.getElem?_append_right (Nat.le_refl _), Nat.sub_self]
  rfl

theorem children (h : HasAt rows n parent t) : HasForestAt rows (n + 1) (some n) t.children := by
  obtain ⟨before, after, rfl, rfl, hafter⟩ := h
  intro pre c post hcs
  refine ⟨before ++ t.headRow before.length parent :: forestRowsFrom (before.length + 1)
    (some before.length) pre, forestRowsFrom (before.length + 1 + forestSize pre + c.size)
    (some before.length) post ++ after, ?_, ?_, ?_⟩
  · rw [rowsFrom_eq, hcs, forestRowsFrom_append, forestRowsFrom]
    simp only [List.append_assoc, List.cons_append]
  · rw [List.length_append, List.length_cons, length_forestRowsFrom]
    omega
  -- the next row is a sibling's, or else the one behind the parent
  · intro y hy p hp
    cases post with
    | nil =>
      rw [forestRowsFrom, List.nil_append] at hy
      exact Nat.lt_of_lt_of_le (hafter y hy p hp) (by omega)
    | cons d post =>
      rw [forestRowsFrom, rowsFrom_eq] at hy
      cases Option.some.inj hy
      cases Option.some.inj hp
      omega

theorem size_le (h : HasAt rows n parent t) : t.size ≤ rows.length := by
  obtain ⟨before, after, rfl, _⟩ := h
  rw [List.length_append, List.length_append, length_rowsFrom]
  omega

theorem rowsFrom_subset (h : HasAt rows n parent t) : t.rowsFrom n parent ⊆ rows := by
  obtain ⟨before, after, rfl, _⟩ := h
  exact fun y hy => List.mem_append_right _ (List.mem_append_left _ hy)

/-- A table that has the rows of a tree has those of the subtree whose root is in a row. -/
theorem exists_of_mem (h : HasAt rows n parent t) (hr : r ∈ t.rowsFrom n parent) :
    ∃ x, HasAt rows r.id r.parent x ∧ r = x.headRow r.id r.parent
      ∧ if r.id = n then x = t else ∃ c ∈ t.children, x ∈ c.subtrees := by
  induction t using induct generalizing n parent with
  | step t ih =>
    rw [rowsFrom_eq] at hr
    rcases List.mem_cons.1 hr with rfl | hr
    · refine ⟨t, h, rfl, ?_⟩
      rw [if_pos (show (t.headRow n parent).id = n from rfl)]
    · obtain ⟨pre, c, post, hcs, hr⟩ := mem_forestRowsFrom.1 hr
      have hc : c ∈ t.children := hcs ▸ List.mem_append_right _ List.mem_cons_self
      obtain ⟨x, hat, hrow, hx⟩ := ih c hc (h.children pre c post hcs) hr
      have hne : r.id ≠ n := by
        have := (id_mem_range hr).1
        omega
      refine ⟨x, hat, hrow, ?_⟩
      rw [if_neg hne]
      refine ⟨c, hc, ?_⟩
      split at hx
      · exact hx ▸ mem_subtrees_self c
      · obtain ⟨d, hd, hx⟩ := hx
        exact mem_subtrees_of_mem_child hd hx

end HasAt

/-- The tree itself or one below it is a subtree. -/
theorem mem_subtrees_of_ite {p : Prop} [Decidable p]
    (h : if p then x = t else ∃ c ∈ t.children, x ∈ c.subtrees) : x ∈ t.subtrees := by
  split at h
  · exact h ▸ mem_subtrees_self t
  · obtain ⟨c, hc, hx⟩ := h
    exact mem_subtrees_of_mem_child hc hx

theorem HasForestAt.head (h : HasForestAt rows n parent (c :: cs)) : HasAt rows n parent c :=
  h [] c cs rfl

theorem HasForestAt.tail (h : HasForestAt rows n parent (c :: cs)) :
    HasForestAt rows (n + c.size) parent cs := by
  rintro pre d post rfl
  have hd := h (c :: pre) d post rfl
  rwa [forestSize, ← Nat.add_assoc] at hd

/-- The rows at the places of the roots of a list of trees have the labels of these. -/
theorem HasForestAt.map_label (h : HasForestAt rows n parent cs) :
    (rootPlaces n cs).map (fun m => rows[m]?.map Row.label) = cs.map fun c => some c.label := by
  induction cs generalizing n with
  | nil => rfl
  | cons c cs ih =>
    rw [rootPlaces, List.map_cons, List.map_cons, h.head.getElem?, ih h.tail]
    rfl

/-! ## What stands below a row -/

/-- A row of a tree other than the first one has a parent in the tree. -/
theorem le_parent_of_mem (h : y ∈ forestRowsFrom (n + 1) (some n) cs) :
    ∃ p, y.parent = some p ∧ n ≤ p := by
  obtain ⟨pre, c, post, _, hy⟩ := mem_forestRowsFrom.1 h
  rcases parent_of_mem hy with rfl | ⟨q, hq, hparent, _⟩
  · exact ⟨n, rfl, Nat.le_refl n⟩
  · have := (id_mem_range hq).1
    exact ⟨q.id, hparent, by omega⟩

/-- The rows below a node are a block behind it, which ends before the first row that has no parent
in it. -/
theorem HasAt.takeWhile_drop (h : HasAt rows n parent t) :
    (rows.drop (n + 1)).takeWhile (fun y => y.parent.any (n ≤ ·))
      = forestRowsFrom (n + 1) (some n) t.children := by
  obtain ⟨before, after, rfl, rfl, hafter⟩ := h
  have hdrop : (before ++ (t.rowsFrom before.length parent ++ after)).drop (before.length + 1)
      = forestRowsFrom (before.length + 1) (some before.length) t.children ++ after := by
    rw [← List.drop_drop, List.drop_left, rowsFrom_eq, List.cons_append, List.drop_one,
      List.tail_cons]
  have hblock : ∀ y ∈ forestRowsFrom (before.length + 1) (some before.length) t.children,
      y.parent.any (before.length ≤ ·) = true := by
    intro y hy
    obtain ⟨p, hp, hle⟩ := le_parent_of_mem hy
    rw [hp]
    exact decide_eq_true hle
  rw [hdrop, List.takeWhile_append_of_pos hblock]
  cases after with
  | nil => rw [List.takeWhile_nil, List.append_nil]
  | cons y after =>
    have hstop : ¬ y.parent.any (before.length ≤ ·) = true := by
      rw [Option.any_eq_true]
      rintro ⟨p, hp, hle⟩
      exact absurd (hafter y rfl p hp) (Nat.not_lt.2 (of_decide_eq_true hle))
    rw [List.takeWhile_cons, if_neg hstop, List.append_nil]

/-- One row is the parent of another. -/
def IsParentRow (rows : List (Row α)) (r y : Row α) : Prop :=
  r ∈ rows ∧ y ∈ rows ∧ y.parent = some r.id

/-- A row is the first one, or has a parent before it. -/
theorem IsTable.parent_cases (h : IsTable rows) (hr : r ∈ rows) :
    r.id = 0 ∨ ∃ q, IsParentRow rows q r ∧ q.id < r.id := by
  cases hp : r.parent with
  | none => exact .inl ((h.parent_eq_none r hr).1 hp)
  | some p =>
    obtain ⟨q, hq, rfl⟩ := h.parent_mem r hr p hp
    have hchild := (h.parent_iff q hq r hr).1 hp
    exact .inr ⟨q, ⟨hq, hr, hp⟩, List.rel_of_pairwise_cons (h.ascending q hq) hchild⟩

theorem headRow_reaches (h : y ∈ t.rowsFrom n parent) (hsub : t.rowsFrom n parent ⊆ rows) :
    Relation.ReflTransGen (IsParentRow rows) (t.headRow n parent) y := by
  induction t using induct generalizing n parent with
  | step t ih =>
    rw [rowsFrom_eq] at h hsub
    rcases List.mem_cons.1 h with rfl | h
    · exact .refl
    · obtain ⟨pre, c, post, hcs, h⟩ := mem_forestRowsFrom.1 h
      have hc : c ∈ t.children := hcs ▸ List.mem_append_right _ List.mem_cons_self
      have hsubc : c.rowsFrom (n + 1 + forestSize pre) (some n) ⊆ rows := fun z hz =>
        hsub (List.mem_cons_of_mem _ (mem_forestRowsFrom.2 ⟨pre, c, post, hcs, hz⟩))
      exact .head ⟨hsub List.mem_cons_self, hsubc headRow_mem, rfl⟩ (ih c hc h hsubc)

/-- The row that names another one as its parent is that of a child of its node. -/
theorem exists_child_of_parent (h : IsParentRow t.rows r y) :
    ∃ x, ∃ c ∈ x.children, r.label = x.label ∧ y.label = c.label
      ∧ if r.id = 0 then x = t else ∃ d ∈ t.children, x ∈ d.subtrees := by
  obtain ⟨hr, hy, hparent⟩ := h
  obtain ⟨x, hat, hrow, hx⟩ := (hasAt_rows t).exists_of_mem hr
  have hmem := ((isTable_rows t).parent_iff r hr y hy).1 hparent
  rw [hrow] at hmem
  obtain ⟨pre, c, post, hcs, hid⟩ := mem_rootPlaces.1 hmem
  have hc := (hat.children pre c post hcs).getElem?
  rw [← hid, getElem?_rows hy] at hc
  exact ⟨x, c, hcs ▸ List.mem_append_right _ List.mem_cons_self, congrArg Row.label hrow,
    congrArg Row.label (Option.some.inj hc), hx⟩

/-- What stands above a row stands above its parent, or is the parent. -/
theorem transGen_iff (h : IsParentRow t.rows r y) {q : Row α} :
    Relation.TransGen (IsParentRow t.rows) q y
      ↔ q = r ∨ Relation.TransGen (IsParentRow t.rows) q r := by
  have hunique {z : Row α} (hz : IsParentRow t.rows z y) : z = r :=
    eq_of_id_eq hz.1 h.1 (Option.some.inj (hz.2.2.symm.trans h.2.2))
  constructor
  · intro hq
    cases hq with
    | single hq => exact .inl (hunique hq)
    | tail hq hz => exact .inr (hunique hz ▸ hq)
  · rintro (rfl | hq)
    · exact .single h
    · exact hq.tail h

/-- The block behind the row of a node holds what stands below the node. -/
theorem HasAt.mem_below_iff (h : HasAt t.rows n parent x) :
    y ∈ forestRowsFrom (n + 1) (some n) x.children
      ↔ Relation.TransGen (IsParentRow t.rows) (x.headRow n parent) y := by
  have hsub := h.rowsFrom_subset
  rw [rowsFrom_eq] at hsub
  have hroot := hsub List.mem_cons_self
  constructor
  · intro hy
    obtain ⟨pre, c, post, hcs, hy⟩ := mem_forestRowsFrom.1 hy
    have hsubc := (h.children pre c post hcs).rowsFrom_subset
    exact .head' ⟨hroot, hsubc headRow_mem, rfl⟩ (headRow_reaches hy hsubc)
  · intro hy
    -- the children that a row of the tree names have rows of the tree
    have hstep : ∀ z y, z ∈ x.rowsFrom n parent → IsParentRow t.rows z y →
        y ∈ forestRowsFrom (n + 1) (some n) x.children := by
      rintro z y hz ⟨hzt, hyt, hparent⟩
      obtain ⟨y', hy', hid, _, hlt⟩ :=
        child_of_mem hz (((isTable_rows t).parent_iff z hzt y hyt).1 hparent)
      cases eq_of_id_eq (h.rowsFrom_subset hy') hyt hid
      have hle := (id_mem_range hz).1
      rw [rowsFrom_eq] at hy'
      rcases List.mem_cons.1 hy' with rfl | hy'
      · exact absurd hlt (Nat.not_lt.2 hle)
      · exact hy'
    induction hy with
    | single hy => exact hstep _ _ headRow_mem hy
    | tail _ hz ih => exact hstep _ _ (rowsFrom_eq n parent x ▸ List.mem_cons_of_mem _ ih) hz

/-! ## Traversal with a stack -/

/-- The rows of the children of a row. -/
def childRows (rows : List (Row α)) (r : Row α) : List (Row α) := r.children.filterMap (rows[·]?)

/-- Takes row after row from a stack, the top first, and puts the children of each on it. -/
def walk (rows : List (Row α)) : Nat → List (Row α) → List (Row α)
  | 0, _ => []
  | _ + 1, [] => []
  | fuel + 1, r :: stack => r :: walk rows fuel (childRows rows r ++ stack)

theorem HasForestAt.walk_of {stack : List (Row α)} (h : HasForestAt rows n parent cs)
    (htree : ∀ c ∈ cs, ∀ m, HasAt rows m parent c → ∀ fuel stack,
      walk rows (c.size + fuel) (c.headRow m parent :: stack)
        = c.rowsFrom m parent ++ walk rows fuel stack) :
    walk rows (forestSize cs + fuel) ((rootPlaces n cs).filterMap (rows[·]?) ++ stack)
      = forestRowsFrom n parent cs ++ walk rows fuel stack := by
  induction cs generalizing n with
  | nil => rw [forestSize, Nat.zero_add, forestRowsFrom]; rfl
  | cons c cs ih =>
    rw [rootPlaces, List.filterMap_cons_some h.head.getElem?, forestSize, Nat.add_assoc,
      List.cons_append, htree c List.mem_cons_self n h.head,
      ih h.tail fun d hd => htree d (List.mem_cons_of_mem c hd), forestRowsFrom, List.append_assoc]

/-- A tree on top of the stack is gone through before the rest of the stack. -/
theorem HasAt.walk (h : HasAt rows n parent t) (fuel : Nat) (stack : List (Row α)) :
    walk rows (t.size + fuel) (t.headRow n parent :: stack)
      = t.rowsFrom n parent ++ walk rows fuel stack := by
  induction t using induct generalizing n parent fuel stack with
  | step t ih =>
    have hbelow : Tree.walk rows (forestSize t.children + fuel)
          ((rootPlaces (n + 1) t.children).filterMap (rows[·]?) ++ stack)
        = forestRowsFrom (n + 1) (some n) t.children ++ Tree.walk rows fuel stack :=
      h.children.walk_of fun c hc m hm fuel stack => ih c hc hm fuel stack
    rw [size_eq, Nat.add_assoc, Nat.add_comm 1, rowsFrom_eq, List.cons_append, ← hbelow]
    rfl

theorem walk_nil (rows : List (Row α)) (fuel : Nat) : Tree.walk rows fuel [] = [] := by
  cases fuel <;> rfl

/-- Starting with the children of a node, what stands below the node is gone through. -/
theorem HasAt.walk_childRows (h : HasAt rows n parent t) (hfuel : rows.length ≤ fuel) :
    Tree.walk rows fuel (childRows rows (t.headRow n parent))
      = forestRowsFrom (n + 1) (some n) t.children := by
  have hsize := h.size_le
  rw [size_eq] at hsize
  obtain ⟨k, rfl⟩ : ∃ k, fuel = forestSize t.children + k :=
    ⟨fuel - forestSize t.children, by omega⟩
  have hwalk : Tree.walk rows (forestSize t.children + k)
        ((rootPlaces (n + 1) t.children).filterMap (rows[·]?) ++ [])
      = forestRowsFrom (n + 1) (some n) t.children ++ Tree.walk rows k [] :=
    h.children.walk_of fun c _ m hc => hc.walk
  rwa [walk_nil, List.append_nil, List.append_nil] at hwalk

/-! ## Reading a table -/

/-- The tree whose root is in a row, read from the row and the rows of its children. -/
def rebuild? (rows : List (Row α)) : Nat → Nat → Option (Tree α)
  | 0, _ => none
  | fuel + 1, n => do
    let r ← rows[n]?
    return ⟨r.label, ← r.children.mapM (rebuild? rows fuel)⟩

theorem HasForestAt.mapM_rebuild? (h : HasForestAt rows n parent cs)
    (htree : ∀ c ∈ cs, ∀ m, HasAt rows m parent c → rebuild? rows fuel m = some c) :
    (rootPlaces n cs).mapM (rebuild? rows fuel) = some cs := by
  induction cs generalizing n with
  | nil => rfl
  | cons c cs ih =>
    rw [rootPlaces, List.mapM_cons, htree c List.mem_cons_self n h.head,
      ih h.tail fun d hd => htree d (List.mem_cons_of_mem c hd)]
    rfl

theorem size_le_of_mem (h : c ∈ cs) : c.size ≤ forestSize cs := by
  obtain ⟨pre, post, rfl⟩ := List.append_of_mem h
  rw [forestSize_append, forestSize]
  omega

/-- Fuel for a tree is one more than fuel for each tree below its root. -/
theorem exists_fuel (h : t.size ≤ fuel) : ∃ k, fuel = k + 1 ∧ ∀ c ∈ t.children, c.size ≤ k := by
  rw [size_eq] at h
  exact ⟨fuel - 1, by omega, fun c hc => Nat.le_trans (size_le_of_mem hc) (by omega)⟩

/-- Reading the rows of a tree gives the tree. -/
theorem HasAt.rebuild? (h : HasAt rows n parent t) (hfuel : t.size ≤ fuel) :
    rebuild? rows fuel n = some t := by
  induction t using induct generalizing n parent fuel with
  | step t ih =>
    obtain ⟨fuel, rfl, hsize⟩ := exists_fuel hfuel
    have hchildren : (rootPlaces (n + 1) t.children).mapM (Tree.rebuild? rows fuel)
        = some t.children :=
      h.children.mapM_rebuild? fun c hc m hm => ih c hc hm (hsize c hc)
    rw [Tree.rebuild?, h.getElem?]
    show (do return ⟨t.label, ← (rootPlaces (n + 1) t.children).mapM (Tree.rebuild? rows fuel)⟩)
      = some t
    rw [hchildren]
    cases t
    rfl

/-! ## Relabelling -/

/-- Gives a row another label. -/
def Row.relabel (f : Nat → α → β) (r : Row α) : Row β :=
  ⟨r.id, r.parent, r.children, f r.id r.label⟩

mutual

/-- What does not depend on the number is what it was. -/
theorem map_indexed {γ : Type} {f : Nat → α → β} {g : β → γ} {k : α → γ}
    (hg : ∀ n a, g (f n a) = k a) : ∀ (n : Nat) (t : Tree α), (t.indexed f n).map g = t.map k
  | n, ⟨a, cs⟩ => by rw [indexed, map, map, hg, mapForest_indexed hg (n + 1) cs]

theorem mapForest_indexed {γ : Type} {f : Nat → α → β} {g : β → γ} {k : α → γ}
    (hg : ∀ n a, g (f n a) = k a) :
    ∀ (n : Nat) (ts : List (Tree α)), mapForest g (indexedForest f n ts) = mapForest k ts
  | _, [] => rfl
  | n, t :: ts => by
    rw [indexedForest, mapForest, mapForest, map_indexed hg n t,
      mapForest_indexed hg (n + t.size) ts]

end

mutual

theorem size_indexed (f : Nat → α → β) : ∀ (n : Nat) (t : Tree α), (t.indexed f n).size = t.size
  | n, ⟨a, cs⟩ => by rw [indexed, size, size, forestSize_indexed f (n + 1) cs]

theorem forestSize_indexed (f : Nat → α → β) :
    ∀ (n : Nat) (ts : List (Tree α)), forestSize (indexedForest f n ts) = forestSize ts
  | _, [] => rfl
  | n, t :: ts => by
    rw [indexedForest, forestSize, forestSize, size_indexed f n t,
      forestSize_indexed f (n + t.size) ts]

end

theorem rootPlaces_indexed (f : Nat → α → β) (m n : Nat) (ts : List (Tree α)) :
    rootPlaces m (indexedForest f n ts) = rootPlaces m ts := by
  induction ts generalizing m n with
  | nil => rfl
  | cons t ts ih => rw [indexedForest, rootPlaces, rootPlaces, size_indexed, ih]

mutual

/-- The rows of a tree that is relabelled. -/
theorem rowsFrom_indexed (f : Nat → α → β) : ∀ (n : Nat) (parent : Option Nat) (t : Tree α),
    (t.indexed f n).rowsFrom n parent = (t.rowsFrom n parent).map (Row.relabel f)
  | n, parent, ⟨a, cs⟩ => by
    rw [indexed, rowsFrom, rowsFrom, List.map_cons, rootPlaces_indexed,
      forestRowsFrom_indexed f (n + 1) (some n) cs]
    rfl

theorem forestRowsFrom_indexed (f : Nat → α → β) :
    ∀ (n : Nat) (parent : Option Nat) (ts : List (Tree α)),
      forestRowsFrom n parent (indexedForest f n ts)
        = (forestRowsFrom n parent ts).map (Row.relabel f)
  | n, parent, [] => by rw [indexedForest, forestRowsFrom, forestRowsFrom]; rfl
  | n, parent, t :: ts => by
    rw [indexedForest, forestRowsFrom, forestRowsFrom, List.map_append, size_indexed,
      rowsFrom_indexed f n parent t, forestRowsFrom_indexed f (n + t.size) parent ts]

end

mutual

/-- Relabelling without regard to numbers. -/
theorem map_eq_indexed (f : α → β) : ∀ (n : Nat) (t : Tree α), t.map f = t.indexed (fun _ => f) n
  | n, ⟨a, cs⟩ => by rw [map, indexed, mapForest_eq_indexedForest f (n + 1) cs]

theorem mapForest_eq_indexedForest (f : α → β) :
    ∀ (n : Nat) (ts : List (Tree α)), mapForest f ts = indexedForest (fun _ => f) n ts
  | _, [] => rfl
  | n, t :: ts => by
    rw [mapForest, indexedForest, map_eq_indexed f n t,
      mapForest_eq_indexedForest f (n + t.size) ts]

end

theorem rows_map (f : α → β) (t : Tree α) :
    (t.map f).rows = t.rows.map (Row.relabel fun _ => f) := by
  rw [map_eq_indexed f 0, rows, rowsFrom_indexed]
  rfl

theorem size_map (f : α → β) (t : Tree α) : (t.map f).size = t.size := by
  rw [map_eq_indexed f 0, size_indexed]

/-! ## Building a table -/

/-- Adds a child to a row. -/
def Row.addChild (id : Nat) (r : Row α) : Row α := { r with children := r.children ++ [id] }

/-- The row of a node that has no children yet. -/
theorem rowsFrom_leaf (n : Nat) (parent : Option Nat) (a : α) :
    (leaf a).rowsFrom n parent = [⟨n, parent, [], a⟩] := by
  rw [leaf, rowsFrom, rootPlaces, forestRowsFrom]

/-- When the rows of one more child are complete, behind those of a node and of the children that it
has, and the child is added to the row of the node, these are the rows of the node with that
child. -/
theorem modify_addChild (out : List (Row α)) (parent : Option Nat) (a : α) (cs : List (Tree α))
    (c : Tree α) {place : Nat}
    (hplace : (out ++ (Tree.mk a cs).rowsFrom out.length parent).length = place) :
    ((out ++ (Tree.mk a cs).rowsFrom out.length parent)
          ++ c.rowsFrom place (some out.length)).modify out.length (Row.addChild place)
      = out ++ (Tree.mk a (cs ++ [c])).rowsFrom out.length parent := by
  have hlength : place = out.length + 1 + forestSize cs := by
    rw [← hplace, List.length_append, length_rowsFrom, size, Nat.add_assoc]
  rw [rowsFrom, List.append_assoc, List.cons_append, List.modify_eq_take_cons_drop (by simp),
    rowsFrom, forestRowsFrom_append, rootPlaces_append, hlength]
  simp [Row.addChild, rootPlaces, forestRowsFrom]

/-- Children whose rows come one after the other are added to the row of their parent, which has the
children `cs`. -/
theorem foldlM_addChild (copy : Nat → List (Row α) → Option (List (Row α))) (place : β → Nat)
    (tree : β → Tree α) {xs : List β} (out : List (Row α)) (parent : Option Nat) (a : α)
    (cs : List (Tree α)) (hcopy : ∀ x ∈ xs, ∀ rows,
      copy (place x) rows = some (rows ++ (tree x).rowsFrom rows.length (some out.length))) :
    (xs.map place).foldlM
        (fun rows j => (copy j rows).map fun next =>
          next.modify out.length (Row.addChild rows.length))
        (out ++ (Tree.mk a cs).rowsFrom out.length parent)
      = some (out ++ (Tree.mk a (cs ++ xs.map tree)).rowsFrom out.length parent) := by
  induction xs generalizing cs with
  | nil =>
    rw [List.map_nil, List.foldlM_nil, List.map_nil, List.append_nil]
    rfl
  | cons x xs ih =>
    rw [List.map_cons, List.foldlM_cons, hcopy x List.mem_cons_self, Option.map_some,
      Option.bind_eq_bind, Option.bind_some, modify_addChild _ _ _ _ _ rfl,
      ih _ fun y hy => hcopy y (List.mem_cons_of_mem x hy), List.append_assoc]
    rfl

end Tree

end YangSchema
