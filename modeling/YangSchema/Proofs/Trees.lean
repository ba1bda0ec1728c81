import Mathlib.Data.List.Nodup
import YangSchema.Tree

/-!
# Subtrees

The subtrees of a tree are the tree itself and the subtrees of its children. Numbering a tree in
preorder gives every node a number of its own, and a subtree of the numbered tree is a subtree of
the tree with its numbers.
-/

namespace YangSchema

namespace Tree

variable {α β : Type}

/-- What holds of a tree when it holds of its children holds of all trees. -/
theorem induct {P : Tree α → Prop} (step : ∀ t : Tree α, (∀ c ∈ t.children, P c) → P t)
    (t : Tree α) : P t := by
  -- for lists of trees, that it holds of each of them
  refine @Tree.rec α P (fun cs => ∀ c ∈ cs, P c) (fun a cs ih => step ⟨a, cs⟩ ih) ?_ ?_ t
  · exact fun c hc => absurd hc List.not_mem_nil
  · exact fun t ts ht hts => List.forall_mem_cons.2 ⟨ht, hts⟩

/-! ## Listing -/

theorem subtrees_eq (t : Tree α) : t.subtrees = t :: forestSubtrees t.children := by
  obtain ⟨a, cs⟩ := t
  rw [subtrees]

theorem forestSubtrees_append (ts us : List (Tree α)) :
    forestSubtrees (ts ++ us) = forestSubtrees ts ++ forestSubtrees us := by
  induction ts with
  | nil => rfl
  | cons t ts ih => rw [List.cons_append, forestSubtrees, forestSubtrees, ih, List.append_assoc]

theorem forestPreorder_append (ts us : List (Tree α)) :
    forestPreorder (ts ++ us) = forestPreorder ts ++ forestPreorder us := by
  induction ts with
  | nil => rfl
  | cons t ts ih =>
    rw [List.cons_append, forestPreorder, forestPreorder, ih, List.append_assoc]

/-! ## Membership -/

theorem mem_forestSubtrees {x : Tree α} {ts : List (Tree α)} :
    x ∈ forestSubtrees ts ↔ ∃ t ∈ ts, x ∈ t.subtrees := by
  induction ts with
  | nil => simp [forestSubtrees]
  | cons t ts ih => rw [forestSubtrees, List.mem_append, ih]; simp

theorem mem_subtrees {x t : Tree α} :
    x ∈ t.subtrees ↔ x = t ∨ ∃ c ∈ t.children, x ∈ c.subtrees := by
  obtain ⟨a, cs⟩ := t
  rw [subtrees, List.mem_cons, mem_forestSubtrees]

theorem mem_subtrees_self (t : Tree α) : t ∈ t.subtrees := mem_subtrees.2 (.inl rfl)

theorem mem_subtrees_of_mem_child {x c t : Tree α} (hc : c ∈ t.children) (hx : x ∈ c.subtrees) :
    x ∈ t.subtrees := mem_subtrees.2 (.inr ⟨c, hc, hx⟩)

theorem mem_subtrees_trans {y x t : Tree α} (hy : y ∈ x.subtrees) (hx : x ∈ t.subtrees) :
    y ∈ t.subtrees := by
  induction t using induct with
  | step t ih =>
    rcases mem_subtrees.1 hx with rfl | ⟨c, hc, hx⟩
    · exact hy
    · exact mem_subtrees_of_mem_child hc (ih c hc hx)

/-- The children of a subtree are subtrees. -/
theorem child_mem_subtrees {c x t : Tree α} (hx : x ∈ t.subtrees) (hc : c ∈ x.children) :
    c ∈ t.subtrees :=
  mem_subtrees_trans (mem_subtrees_of_mem_child hc (mem_subtrees_self c)) hx

/-- What holds of a tree when it holds of all that stands below it holds of all trees. -/
theorem inductBelow {P : Tree α → Prop}
    (step : ∀ t : Tree α, (∀ c ∈ t.children, ∀ x ∈ c.subtrees, P x) → P t) (t : Tree α) : P t := by
  suffices h : ∀ x ∈ t.subtrees, P x from h t (mem_subtrees_self t)
  induction t using induct with
  | step t ih =>
    intro x hx
    rcases mem_subtrees.1 hx with rfl | ⟨c, hc, hx⟩
    · exact step x ih
    · exact ih c hc x hx

/-- The labels of the subtrees are the labels in preorder. -/
theorem map_label_subtrees (t : Tree α) : t.subtrees.map label = t.preorder := by
  induction t using induct with
  | step t ih =>
    have forest : ∀ cs : List (Tree α), (∀ c ∈ cs, c.subtrees.map label = c.preorder) →
        (forestSubtrees cs).map label = forestPreorder cs := by
      intro cs
      induction cs with
      | nil => intro _; rfl
      | cons c cs ihcs =>
        intro h
        rw [forestSubtrees, forestPreorder, List.map_append, h c List.mem_cons_self,
          ihcs fun d hd => h d (List.mem_cons_of_mem c hd)]
    obtain ⟨a, cs⟩ := t
    rw [subtrees, preorder, List.map_cons, forest cs ih]

mutual

theorem map_map {γ : Type} (g : β → γ) (f : α → β) : ∀ t : Tree α, (t.map f).map g = t.map (g ∘ f)
  | ⟨a, cs⟩ => by rw [map, map, map, mapForest_mapForest g f cs]; rfl

theorem mapForest_mapForest {γ : Type} (g : β → γ) (f : α → β) :
    ∀ ts : List (Tree α), mapForest g (mapForest f ts) = mapForest (g ∘ f) ts
  | [] => rfl
  | t :: ts => by rw [mapForest, mapForest, mapForest, map_map g f t, mapForest_mapForest g f ts]

end

mutual

theorem preorder_map (f : α → β) : ∀ t : Tree α, (t.map f).preorder = t.preorder.map f
  | ⟨a, cs⟩ => by rw [map, preorder, preorder, List.map_cons, forestPreorder_map f cs]

theorem forestPreorder_map (f : α → β) :
    ∀ ts : List (Tree α), forestPreorder (mapForest f ts) = (forestPreorder ts).map f
  | [] => rfl
  | t :: ts => by
    rw [mapForest, forestPreorder, forestPreorder, List.map_append, preorder_map f t,
      forestPreorder_map f ts]

end

/-! ## Changing a child -/

/-- Only what a change makes of the child itself matters. -/
theorem modify_congr {f g : Tree α → Tree α} {cs : List (Tree α)} {i : Nat} {c : Tree α}
    (hc : cs[i]? = some c) (h : f c = g c) : cs.modify i f = cs.modify i g := by
  refine List.ext_getElem? fun j => ?_
  by_cases hj : i = j
  · subst hj
    rw [List.getElem?_modify_eq, List.getElem?_modify_eq, hc]
    exact congrArg some h
  · rw [List.getElem?_modify_ne _ _ hj, List.getElem?_modify_ne _ _ hj]

/-- Putting a tree in the place of one that does not differ in some respect leaves the roots of the
list as they are in this respect. -/
theorem map_label_forestReplace (key : α → β) {u x : Tree α} {ts : List (Tree α)} {p : List Nat}
    (hx : forestSubtree? ts p = some x) (hu : key u.label = key x.label) :
    (forestReplace u ts p).map (fun t => key t.label) = ts.map fun t => key t.label := by
  cases p with
  | nil => rfl
  | cons i rest =>
    rw [forestReplace]
    refine List.ext_getElem? fun j => ?_
    rw [List.getElem?_map, List.getElem?_map]
    by_cases hj : i = j
    · subst hj
      rw [List.getElem?_modify_eq]
      obtain ⟨t, ht, hbelow⟩ := Option.bind_eq_some_iff.1 hx
      rw [ht]
      cases rest with
      | nil =>
        rw [subtree?_nil, Option.some.injEq] at hbelow
        subst hbelow
        exact congrArg some hu
      | cons j rest => rfl
    · rw [List.getElem?_modify_ne _ _ hj]

/-- Replacing a tree of a list as a whole. -/
theorem forestReplace_append_cons (u t : Tree α) (pre post : List (Tree α)) :
    forestReplace u (pre ++ t :: post) [pre.length] = pre ++ u :: post := by
  rw [forestReplace, List.modify_eq_take_cons_drop (by simp)]
  simp [replace]

/-! ## Numbering -/

theorem mem_indexedForest {f : Nat → α → β} {x : Tree β} {ts : List (Tree α)} {n : Nat}
    (h : x ∈ indexedForest f n ts) : ∃ t ∈ ts, ∃ m, x = t.indexed f m := by
  induction ts generalizing n with
  | nil => exact absurd h List.not_mem_nil
  | cons t ts ih =>
    rcases List.mem_cons.1 h with rfl | h
    · exact ⟨t, List.mem_cons_self, n, rfl⟩
    · obtain ⟨u, hu, m, hx⟩ := ih h
      exact ⟨u, List.mem_cons_of_mem t hu, m, hx⟩

/-- A subtree of a numbered tree is a subtree of the tree, with its numbers. -/
theorem mem_subtrees_indexed {f : Nat → α → β} {x : Tree β} {t : Tree α} {n : Nat}
    (h : x ∈ (t.indexed f n).subtrees) : ∃ u ∈ t.subtrees, ∃ m, x = u.indexed f m := by
  induction t using induct generalizing n with
  | step t ih =>
    rcases mem_subtrees.1 h with rfl | ⟨c, hc, hx⟩
    · exact ⟨t, mem_subtrees_self t, n, rfl⟩
    · obtain ⟨a, cs⟩ := t
      rw [indexed] at hc
      obtain ⟨d, hd, m, rfl⟩ := mem_indexedForest hc
      obtain ⟨u, hu, k, hx⟩ := ih d hd hx
      exact ⟨u, mem_subtrees_of_mem_child hd hu, k, hx⟩

/-- The numbers of a numbered tree are consecutive. -/
theorem map_preorder_indexed {f : Nat → α → β} {number : β → Nat}
    (hf : ∀ n a, number (f n a) = n) (t : Tree α) (n : Nat) :
    (t.indexed f n).preorder.map number = List.range' n t.size := by
  induction t using induct generalizing n with
  | step t ih =>
    -- the numbers of a list of trees follow each other, tree after tree
    have forest : ∀ (cs : List (Tree α)) (n : Nat),
        (∀ c ∈ cs, ∀ m, (c.indexed f m).preorder.map number = List.range' m c.size) →
        (forestPreorder (indexedForest f n cs)).map number = List.range' n (forestSize cs) := by
      intro cs
      induction cs with
      | nil => intro _ _; rfl
      | cons c cs ihcs =>
        intro n h
        rw [indexedForest, forestPreorder, List.map_append, h c List.mem_cons_self,
          ihcs _ fun d hd => h d (List.mem_cons_of_mem c hd), forestSize, List.range'_append_1]
    obtain ⟨a, cs⟩ := t
    rw [indexed, preorder, List.map_cons, hf, forest cs (n + 1) ih, size, Nat.add_comm 1,
      List.range'_succ]

/-- The nodes of a numbered tree have different numbers. -/
theorem nodup_number {f : Nat → α → β} {number : β → Nat} (hf : ∀ n a, number (f n a) = n)
    (t : Tree α) (n : Nat) : ((t.indexed f n).subtrees.map fun u => number u.label).Nodup := by
  have hmap := congrArg (List.map number) (map_label_subtrees (t.indexed f n))
  rw [List.map_map, map_preorder_indexed hf] at hmap
  exact hmap ▸ List.nodup_range'

end Tree

end YangSchema
