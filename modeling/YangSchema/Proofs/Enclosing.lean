import YangSchema.Proofs.Trees

/-!
# What encloses a node

Where all nodes of a list of trees have numbers of their own, a number tells the trees under which
its node stands. Going through the trees in preorder meets them from the outermost to the innermost
one, and those of a child are its parent and those of its parent (`enclosing_child`).
-/

namespace YangSchema

namespace Tree

variable {α : Type} {number : α → Nat} {n : Nat}

/-- Whether the node of a number stands below a tree. -/
def holds (number : α → Nat) (n : Nat) (t : Tree α) : Bool :=
  (forestSubtrees t.children).any fun x => number x.label = n

/-- The trees, from those of a list downwards, below which the node of a number stands; innermost
first. -/
def enclosing (number : α → Nat) (n : Nat) (ts : List (Tree α)) : List (Tree α) :=
  ((forestSubtrees ts).filter (holds number n)).reverse

/-- The numbers of all nodes of a tree. -/
def numbers (number : α → Nat) (t : Tree α) : List Nat := t.subtrees.map fun x => number x.label

/-- The numbers of all nodes of a list of trees. -/
def forestNumbers (number : α → Nat) (ts : List (Tree α)) : List Nat :=
  (forestSubtrees ts).map fun x => number x.label

/-! ## Numbers -/

theorem numbers_eq (t : Tree α) :
    numbers number t = number t.label :: forestNumbers number t.children := by
  rw [numbers, subtrees_eq, List.map_cons, forestNumbers]

theorem mem_numbers {t x : Tree α} (hx : x ∈ t.subtrees) : number x.label ∈ numbers number t :=
  List.mem_map.2 ⟨x, hx, rfl⟩

theorem holds_iff {t : Tree α} : holds number n t = true ↔ n ∈ forestNumbers number t.children := by
  unfold holds forestNumbers
  rw [List.any_eq_true, List.mem_map]
  simp only [decide_eq_true_iff]

theorem forestNumbers_append (ts us : List (Tree α)) :
    forestNumbers number (ts ++ us) = forestNumbers number ts ++ forestNumbers number us := by
  rw [forestNumbers, forestSubtrees_append, List.map_append, forestNumbers, forestNumbers]

theorem forestNumbers_cons (t : Tree α) (ts : List (Tree α)) :
    forestNumbers number (t :: ts) = numbers number t ++ forestNumbers number ts := by
  rw [forestNumbers, forestSubtrees, List.map_append, forestNumbers, numbers]

/-- What stands below a subtree is a node of the tree. -/
theorem mem_forestNumbers_of_holds {ts : List (Tree α)} {x : Tree α} (hx : x ∈ forestSubtrees ts)
    (h : holds number n x = true) : n ∈ forestNumbers number ts := by
  obtain ⟨t, ht, hx⟩ := mem_forestSubtrees.1 hx
  obtain ⟨y, hy, rfl⟩ := List.mem_map.1 (holds_iff.1 h)
  obtain ⟨c, hc, hy⟩ := mem_forestSubtrees.1 hy
  have hmem := mem_subtrees_trans (mem_subtrees_of_mem_child hc hy) hx
  exact List.mem_map.2 ⟨y, mem_forestSubtrees.2 ⟨t, ht, hmem⟩, rfl⟩

/-! ## The trees around a node -/

/-- No tree of a list encloses a node that is not there. -/
theorem filter_holds_of_not_mem {ts : List (Tree α)} (h : n ∉ forestNumbers number ts) :
    (forestSubtrees ts).filter (holds number n) = [] := by
  rw [List.filter_eq_nil_iff]
  intro x hx hholds
  exact h (mem_forestNumbers_of_holds hx hholds)

/-- No tree encloses its own root. -/
theorem filter_holds_self {t : Tree α} (distinct : (numbers number t).Nodup) :
    t.subtrees.filter (holds number (number t.label)) = [] := by
  rw [numbers_eq, List.nodup_cons] at distinct
  have hroot : ¬ holds number (number t.label) t = true := fun h => distinct.1 (holds_iff.1 h)
  rw [subtrees_eq, List.filter_cons_of_neg hroot]
  exact filter_holds_of_not_mem distinct.1

/-- Only the tree of a list in which a node stands has subtrees that enclose it. -/
theorem filter_holds_of_mem {ts : List (Tree α)} {t : Tree α}
    (distinct : (forestNumbers number ts).Nodup) (ht : t ∈ ts) (hn : n ∈ numbers number t) :
    (forestSubtrees ts).filter (holds number n) = t.subtrees.filter (holds number n) := by
  obtain ⟨before, after, rfl⟩ := List.append_of_mem ht
  rw [forestNumbers_append, forestNumbers_cons, List.nodup_append] at distinct
  obtain ⟨_, hrest, hbefore⟩ := distinct
  rw [List.nodup_append] at hrest
  have hnotBefore : n ∉ forestNumbers number before := fun h =>
    hbefore n h n (List.mem_append_left _ hn) rfl
  have hnotAfter : n ∉ forestNumbers number after := fun h => hrest.2.2 n hn n h rfl
  rw [forestSubtrees_append, forestSubtrees, List.filter_append, List.filter_append,
    filter_holds_of_not_mem hnotBefore, filter_holds_of_not_mem hnotAfter, List.nil_append,
    List.append_nil]

theorem nodup_numbers_of_mem {ts : List (Tree α)} {t : Tree α}
    (distinct : (forestNumbers number ts).Nodup) (ht : t ∈ ts) : (numbers number t).Nodup := by
  obtain ⟨before, after, rfl⟩ := List.append_of_mem ht
  rw [forestNumbers_append, forestNumbers_cons] at distinct
  exact (List.nodup_append.1 (List.nodup_append.1 distinct).2.1).1

/-- In preorder the parent of a node comes last of what encloses the node. -/
theorem filter_holds_child {t x c : Tree α} (distinct : (numbers number t).Nodup)
    (hx : x ∈ t.subtrees) (hc : c ∈ x.children) :
    t.subtrees.filter (holds number (number c.label))
      = t.subtrees.filter (holds number (number x.label)) ++ [x] := by
  induction t using induct with
  | step t ih =>
    have below := distinct
    rw [numbers_eq, List.nodup_cons] at below
    have hholds {y : Tree α} (hy : y ∈ forestSubtrees t.children) :
        holds number (number y.label) t = true := holds_iff.2 (List.mem_map.2 ⟨y, hy, rfl⟩)
    rcases mem_subtrees.1 hx with rfl | ⟨d, hd, hx⟩
    · -- the parent is the tree itself, and nothing below it encloses the child
      have hself := mem_subtrees_self c
      rw [filter_holds_self distinct, subtrees_eq,
        List.filter_cons_of_pos (hholds (mem_forestSubtrees.2 ⟨c, hc, hself⟩)),
        filter_holds_of_mem below.2 hc (mem_numbers hself),
        filter_holds_self (nodup_numbers_of_mem below.2 hc)]
      rfl
    · -- the tree encloses both, and all else that does so is in the child tree `d`
      have hcd := child_mem_subtrees hx hc
      rw [subtrees_eq, List.filter_cons_of_pos (hholds (mem_forestSubtrees.2 ⟨d, hd, hx⟩)),
        List.filter_cons_of_pos (hholds (mem_forestSubtrees.2 ⟨d, hd, hcd⟩)),
        filter_holds_of_mem below.2 hd (mem_numbers hx),
        filter_holds_of_mem below.2 hd (mem_numbers hcd),
        ih d hd (nodup_numbers_of_mem below.2 hd) hx, List.cons_append]

/-- Nothing encloses the trees of the list themselves. -/
theorem enclosing_of_mem {ts : List (Tree α)} {t : Tree α}
    (distinct : (forestNumbers number ts).Nodup) (ht : t ∈ ts) :
    enclosing number (number t.label) ts = [] := by
  rw [enclosing, filter_holds_of_mem distinct ht (mem_numbers (mem_subtrees_self t)),
    filter_holds_self (nodup_numbers_of_mem distinct ht), List.reverse_nil]

/-- A node is enclosed by its parent and by what encloses the parent. -/
theorem enclosing_child {ts : List (Tree α)} {x c : Tree α}
    (distinct : (forestNumbers number ts).Nodup) (hx : x ∈ forestSubtrees ts)
    (hc : c ∈ x.children) : enclosing number (number c.label) ts
      = x :: enclosing number (number x.label) ts := by
  obtain ⟨t, ht, hx⟩ := mem_forestSubtrees.1 hx
  have hct := child_mem_subtrees hx hc
  rw [enclosing, enclosing, filter_holds_of_mem distinct ht (mem_numbers hct),
    filter_holds_of_mem distinct ht (mem_numbers hx),
    filter_holds_child (nodup_numbers_of_mem distinct ht) hx hc, List.reverse_append]
  rfl

/-- What holds of the trees of a list, and of the children of all of which it holds, holds of all
that stands in them. -/
theorem inductDown {P : Tree α → Prop} {ts : List (Tree α)} (top : ∀ t ∈ ts, P t)
    (step : ∀ x ∈ forestSubtrees ts, P x → ∀ c ∈ x.children, P c) :
    ∀ x ∈ forestSubtrees ts, P x := by
  suffices h : ∀ t : Tree α, (∀ x ∈ t.subtrees, x ∈ forestSubtrees ts) → P t →
      ∀ x ∈ t.subtrees, P x by
    intro x hx
    obtain ⟨t, ht, hx⟩ := mem_forestSubtrees.1 hx
    exact h t (fun y hy => mem_forestSubtrees.2 ⟨t, ht, hy⟩) (top t ht) x hx
  intro t
  induction t using induct with
  | step t ih =>
    intro hsub ht x hx
    rcases mem_subtrees.1 hx with rfl | ⟨c, hc, hx⟩
    · exact ht
    · have hct := step t (hsub t (mem_subtrees_self t)) ht c hc
      exact ih c hc (fun y hy => hsub y (mem_subtrees_of_mem_child hc hy)) hct x hx

end Tree

end YangSchema
