import YangSchema.Proofs.Freezing
import YangSchema.Proofs.Rewriting

/-!
# Detached nodes

When a node is detached, what is reached from the root of an arena is the tree without it
(`Arena.LaysOut.detach`). Its cell stays in the arena, as do those of all nodes below it, but none
of them is reached again, whatever is added, grafted, relabelled or detached later: a cell that is
reached after a step has been reached before it, or is new (`Arena.IsForest.reaches_of_step`).
-/

namespace YangSchema

namespace Tree

variable {α : Type} {t x : Tree α} {p : List Nat}

theorem remove_cons (hp : p ≠ []) (i : Nat) (t : Tree α) :
    remove (i :: p) t = ⟨t.label, t.children.modify i (remove p)⟩ := by
  cases p with
  | nil => exact absurd rfl hp
  | cons j p => rfl

/-- Taking out a child is putting its parent without it in the place of the parent. -/
theorem remove_concat (hx : t.subtree? p = some x) (i : Nat) :
    remove (p ++ [i]) t = replace ⟨x.label, x.children.eraseIdx i⟩ p t := by
  induction p generalizing t with
  | nil =>
    cases hx
    rfl
  | cons j p ih =>
    obtain ⟨c, hc, hx⟩ := Option.bind_eq_some_iff.1 hx
    rw [List.cons_append, remove_cons (by simp), replace, modify_congr hc (ih hx)]

theorem preorder_eq (t : Tree α) : t.preorder = t.label :: forestPreorder t.children := by
  obtain ⟨a, cs⟩ := t
  rfl

/-- In preorder, what stands below a node is one block with it, which goes with it. -/
theorem exists_preorder_remove (hp : p ≠ []) (hx : t.subtree? p = some x) :
    ∃ pre post, t.preorder = pre ++ x.preorder ++ post
      ∧ (remove p t).preorder = pre ++ post := by
  induction p generalizing t with
  | nil => exact absurd rfl hp
  | cons i p ih =>
    obtain ⟨c, hc, hx⟩ := Option.bind_eq_some_iff.1 hx
    obtain ⟨hi, rfl⟩ := List.getElem?_eq_some_iff.1 hc
    have hbefore : t.preorder = t.label :: (forestPreorder (t.children.take i)
        ++ (t.children[i].preorder ++ forestPreorder (t.children.drop (i + 1)))) := by
      rw [preorder_eq, ← forestPreorder, ← forestPreorder_append, List.getElem_cons_drop,
        List.take_append_drop]
    by_cases hlast : p = []
    · subst hlast
      cases hx
      refine ⟨t.label :: forestPreorder (t.children.take i),
        forestPreorder (t.children.drop (i + 1)), ?_, ?_⟩
      · rw [hbefore, List.cons_append, List.cons_append, List.append_assoc]
      · show t.label :: forestPreorder (t.children.eraseIdx i) = _
        rw [List.eraseIdx_eq_take_drop_succ, forestPreorder_append, List.cons_append]
    · obtain ⟨pre, post, hpre, hpost⟩ := ih hlast hx
      refine ⟨t.label :: forestPreorder (t.children.take i) ++ pre,
        post ++ forestPreorder (t.children.drop (i + 1)), ?_, ?_⟩
      · rw [hbefore, hpre]
        simp only [List.cons_append, List.append_assoc]
      · rw [remove_cons hlast, preorder_eq, List.modify_eq_take_cons_drop hi,
          forestPreorder_append, forestPreorder, hpost]
        simp only [List.cons_append, List.append_assoc]

end Tree

namespace Layout

variable {s t : Layout} {p : List Nat}

theorem slots_sublist_of_subtree? (hs : t.subtree? p = some s) : s.slots.Sublist t.slots := by
  cases p with
  | nil =>
    cases hs
    exact List.Sublist.refl _
  | cons i p =>
    obtain ⟨pre, post, hpre, _⟩ := Tree.exists_preorder_remove (List.cons_ne_nil i p) hs
    unfold slots
    rw [hpre, List.append_assoc]
    exact ((List.sublist_append_left _ _).trans (List.sublist_append_right _ _)).map Prod.fst

/-- The slots of the children that are left when one is taken out. -/
theorem filter_slot {ts : List Layout} {i : Nat} (hnodup : (forestSlots ts).Nodup)
    (ht : ts[i]? = some t) :
    (ts.map slot).filter (· != t.slot) = (ts.eraseIdx i).map slot := by
  have hslots : (ts.map slot).Nodup := hnodup.sublist (map_slot_sublist ts)
  obtain ⟨hi, rfl⟩ := List.getElem?_eq_some_iff.1 ht
  rw [← hslots.erase_eq_filter, ← List.eraseIdx_map,
    ← hslots.erase_getElem i (by rwa [List.length_map]), List.getElem_map]

/-- What stands below a node that is taken out is not in what is left. -/
theorem not_mem_slots_remove (hnodup : t.slots.Nodup) (hp : p ≠ []) (hs : t.subtree? p = some s)
    {j : Nat} (hj : j ∈ s.slots) : j ∉ slots (Tree.remove p t) := by
  obtain ⟨pre, post, hbefore, hafter⟩ := Tree.exists_preorder_remove hp hs
  unfold slots at hnodup hj ⊢
  rw [hbefore, List.map_append, List.map_append] at hnodup
  rw [hafter, List.map_append]
  obtain ⟨hleft, _, hright⟩ := List.nodup_append.1 hnodup
  obtain ⟨_, _, hmiddle⟩ := List.nodup_append.1 hleft
  intro hmem
  rcases List.mem_append.1 hmem with hmem | hmem
  · exact hmiddle j hmem j hj rfl
  · exact hright j (List.mem_append_right _ hj) j hmem rfl

theorem exists_of_subtree?_node {n : Node} (h : t.node.subtree? p = some n) :
    ∃ s : Layout, t.subtree? p = some s ∧ s.node = n := by
  unfold node at h
  rw [Tree.subtree?_map] at h
  exact Option.map_eq_some_iff.1 h

theorem node_remove (t : Layout) (p : List Nat) : node (Tree.remove p t) = Tree.remove p t.node :=
  Tree.map_remove ..

end Layout

namespace Arena

variable {A B : Arena} {s t u x c : Layout} {p : List Nat} {i j k : Nat}

/-! ## Steps -/

/-- One step by which the nodes of a module are built or changed. -/
inductive Step (A : Arena) : Arena → Prop
  | add (parent : Nat) (l : NodeLabel) : Step A (A.add parent l)
  | graft (parent : Nat) (n : Node) : Step A (A.graft parent n)
  | relabel (i : Nat) (f : NodeLabel → NodeLabel) : Step A (A.relabel i f)
  | detach (i : Nat) : Step A (A.detach i)

theorem IsForest.step (h : A.IsForest) (hstep : Step A B) : B.IsForest := by
  cases hstep with
  | add q l => exact add_eq_graft ▸ h.graft q (Tree.leaf l)
  | graft q n => exact h.graft q n
  | relabel i f => exact h.relabel i f
  | detach i => exact h.detach i

/-- No cell goes. -/
theorem Step.length_le (hstep : Step A B) : A.length ≤ B.length := by
  cases hstep with
  | add q l => simp
  | graft q n => simp [Arena.graft]
  | relabel i f => simp
  | detach i => simp

theorem IsForest.isChild_of_graft (h : A.IsForest) (n : Node) {q : Nat} (hj : j < A.length)
    (hchild : (A.graft q n).IsChild i j) : A.IsChild i j := by
  have hi : i < A.length := Nat.lt_trans ((h.graft q n).lt_of_isChild hchild) hj
  obtain ⟨c, hc, hmem⟩ := hchild
  rw [getElem?_graft_of_lt hi] at hc
  obtain ⟨c, hold, rfl⟩ := Option.map_eq_some_iff.1 hc
  refine ⟨c, hold, ?_⟩
  split at hmem
  · -- the only new child is a new cell
    rcases List.mem_append.1 hmem with hmem | hmem
    · exact hmem
    · exact absurd (List.mem_singleton.1 hmem) (Nat.ne_of_lt hj)
  · exact hmem

/-- A step makes no cell that there was the child of another one. -/
theorem IsForest.isChild_of_step (h : A.IsForest) (hstep : Step A B) (hj : j < A.length)
    (hchild : B.IsChild i j) : A.IsChild i j := by
  cases hstep with
  | add q l =>
    rw [add_eq_graft] at hchild
    exact h.isChild_of_graft (Tree.leaf l) hj hchild
  | graft q n => exact h.isChild_of_graft n hj hchild
  | relabel k f =>
    obtain ⟨c, hc, hmem⟩ := hchild
    rw [getElem?_relabel] at hc
    obtain ⟨c, hold, rfl⟩ := Option.map_eq_some_iff.1 hc
    refine ⟨c, hold, ?_⟩
    split at hmem <;> exact hmem
  | detach k =>
    cases hparent : (A[k]?).bind Cell.parent with
    | none => rwa [detach_eq_self hparent] at hchild
    | some p =>
      obtain ⟨c, hc, hmem⟩ := hchild
      rw [getElem?_detach hparent] at hc
      obtain ⟨c, hold, rfl⟩ := Option.map_eq_some_iff.1 hc
      refine ⟨c, hold, ?_⟩
      dsimp only at hmem
      split at hmem
      · exact (List.mem_filter.1 hmem).1
      · exact hmem

/-- A cell that is reached after a step has been reached before it, unless it is new. -/
theorem IsForest.reaches_of_step (h : A.IsForest) (hstep : Step A B) (hj : j < A.length)
    (hreach : Relation.ReflTransGen B.IsChild i j) : Relation.ReflTransGen A.IsChild i j := by
  induction hreach with
  | refl => exact .refl
  | tail _ hchild ih =>
    have hlt := (h.step hstep).lt_of_isChild hchild
    exact (ih (Nat.lt_trans hlt hj)).tail (h.isChild_of_step hstep hj hchild)

/-- A cell that is not reached is never reached again. -/
theorem IsForest.reaches_of_steps (h : A.IsForest) (hsteps : Relation.ReflTransGen Step A B)
    (hj : j < A.length) (hreach : Relation.ReflTransGen B.IsChild i j) :
    Relation.ReflTransGen A.IsChild i j := by
  induction hsteps using Relation.ReflTransGen.head_induction_on with
  | refl => exact hreach
  | head hstep _ ih =>
    exact h.reaches_of_step hstep hj (ih (h.step hstep) (Nat.lt_of_lt_of_le hj hstep.length_le))

/-! ## Layouts of changed arenas -/

theorem Keeps.subtree? (h : A.Keeps t) (hx : t.subtree? p = some x) : A.Keeps x := by
  induction p generalizing t with
  | nil =>
    cases hx
    exact h
  | cons i p ih =>
    obtain ⟨c, hc, hx⟩ := Option.bind_eq_some_iff.1 hx
    exact ih (h.child (List.mem_of_getElem? hc)) hx

/-- What is kept from a slot on is one tree. -/
theorem Keeps.unique (ht : A.Keeps t) (hu : A.Keeps u) (hslot : t.slot = u.slot) : t = u := by
  induction t using Tree.induct generalizing u with
  | step t ih =>
    obtain ⟨hview, hchildren⟩ := keeps_iff.1 ht
    obtain ⟨hview', hchildren'⟩ := keeps_iff.1 hu
    rw [hslot, hview', Option.some.injEq, Prod.mk.injEq] at hview
    obtain ⟨hlabel, hslots⟩ := hview
    obtain ⟨⟨i, l⟩, ts⟩ := t
    obtain ⟨⟨j, m⟩, us⟩ := u
    have hsame : us = ts := by
      refine List.ext_getElem? fun k => ?_
      have hk : us[k]?.map Layout.slot = ts[k]?.map Layout.slot := by
        rw [← List.getElem?_map, ← List.getElem?_map, hslots]
      cases hus : us[k]? with
      | none =>
        rw [hus, Option.map_none] at hk
        exact (Option.map_eq_none_iff.1 hk.symm).symm
      | some v =>
        rw [hus, Option.map_some] at hk
        obtain ⟨w, hw, hvw⟩ := Option.map_eq_some_iff.1 hk.symm
        have hmem := List.mem_of_getElem? hw
        rw [hw, ih w hmem (hchildren w hmem) (hchildren' v (List.mem_of_getElem? hus)) hvw]
    change i = j at hslot
    change m = l at hlabel
    rw [hslot, hlabel, hsame]

/-- In a forest, a tree that is kept is all that is reached. -/
theorem IsForest.laysOut_of_keeps (h : A.IsForest) (ht : A.Keeps t) : A.LaysOut t.slot t := by
  obtain ⟨_, hc⟩ := ht.exists_cell
  obtain ⟨u, hu⟩ := h.exists_layout (List.getElem?_eq_some_iff.1 hc).1
  have hsame := ht.unique hu.keeps hu.slot.symm
  rwa [← hsame] at hu

/-- Where two arenas differ in what is kept below one node only, the second one keeps the tree with
what it has there. -/
theorem Keeps.replace (h : A.Keeps t) (hnodup : t.slots.Nodup) (hx : t.subtree? p = some x)
    (hslot : u.slot = x.slot) (hu : B.Keeps u)
    (hsame : ∀ i ∈ t.slots, i ∉ x.slots → B.view i = A.view i) :
    B.Keeps (Tree.replace u p t) := by
  induction p generalizing t with
  | nil =>
    cases hx
    exact hu
  | cons i p ih =>
    obtain ⟨c, hc, hbelow⟩ := Option.bind_eq_some_iff.1 hx
    obtain ⟨hview, hchildren⟩ := keeps_iff.1 h
    have hci : t.subtree? [i] = some c := by
      rw [Tree.subtree?_cons, hc]
      rfl
    have hsub : (Layout.slots c).Sublist t.slots := Layout.slots_sublist_of_subtree? hci
    have hin : x.slots ⊆ Layout.slots c := (Layout.slots_sublist_of_subtree? hbelow).subset
    have hout (j : Nat) (hj : j ∈ Layout.slots (Tree.remove [i] t)) : j ∉ x.slots :=
      fun hmem => Layout.not_mem_slots_remove hnodup (List.cons_ne_nil i []) hci (hin hmem) hj
    refine keeps_iff.2 ⟨?_, fun d hd => ?_⟩
    · -- the root is outside, and its children are in the same slots
      have hroot : t.slot ∉ x.slots := hout _ (Layout.slot_mem_slots (Tree.remove [i] t))
      have hslots : (t.children.modify i (Tree.replace u p)).map Layout.slot = t.children.map _ :=
        Layout.map_slot_forestReplace (p := i :: p) hx hslot
      show B.view t.slot = some (t.label.2, (t.children.modify i (Tree.replace u p)).map _)
      rw [hslots, hsame _ (Layout.slot_mem_slots t) hroot]
      exact hview
    · obtain ⟨k, hk⟩ := List.mem_iff_getElem?.1 hd
      change (t.children.modify i (Tree.replace u p))[k]? = some d at hk
      by_cases hki : i = k
      · subst hki
        rw [List.getElem?_modify_eq, hc] at hk
        cases hk
        exact ih (hchildren c (List.mem_of_getElem? hc)) (hnodup.sublist hsub) hbelow
          fun j hj => hsame j (hsub.subset hj)
      · rw [List.getElem?_modify_ne _ _ hki] at hk
        have hd := List.mem_of_getElem? hk
        have hleft : d ∈ t.children.eraseIdx i :=
          List.mem_eraseIdx_iff_getElem?.2 ⟨k, Ne.symm hki, hk⟩
        refine (hchildren d hd).congr fun j hj => hsame j ?_ (hout j ?_)
        · rw [Layout.slots_eq]
          exact List.mem_cons_of_mem _ (Layout.slots_subset_forestSlots hd hj)
        · rw [Layout.slots_eq]
          exact List.mem_cons_of_mem _ (Layout.slots_subset_forestSlots hleft hj)

/-- What stands below a node is kept as it was if only the cell of the node has changed. -/
theorem Keeps.children_of_view (h : A.Keeps x) (hnodup : x.slots.Nodup)
    (hsame : ∀ j ∈ x.slots, j ≠ x.slot → B.view j = A.view j) : ∀ c ∈ x.children, B.Keeps c := by
  intro c hc
  rw [Layout.slots_eq] at hsame hnodup
  refine (h.child hc).congr fun j hj => ?_
  have hbelow := Layout.slots_subset_forestSlots hc hj
  refine hsame j (List.mem_cons_of_mem _ hbelow) ?_
  rintro rfl
  exact (List.nodup_cons.1 hnodup).1 hbelow

/-- Where the cell of one node has changed, what is reached is the tree with what is kept there in
the place of the node. -/
theorem LaysOut.replace (h : B.IsForest) (ht : A.LaysOut i t) (hx : t.subtree? p = some x)
    (hslot : u.slot = x.slot) (hu : B.Keeps u)
    (hsame : ∀ j ∈ t.slots, j ≠ x.slot → B.view j = A.view j) :
    B.LaysOut i (Tree.replace u p t) := by
  have hkeeps : B.Keeps (Tree.replace u p t) := by
    refine ht.keeps.replace ht.nodup hx hslot hu fun j hj hnot => hsame j hj ?_
    rintro rfl
    exact hnot (Layout.slot_mem_slots x)
  have hroot : Layout.slot (Tree.replace u p t) = i := by
    cases p with
    | nil =>
      cases hx
      exact hslot.trans ht.slot
    | cons k p => exact ht.slot
  exact hroot ▸ h.laysOut_of_keeps hkeeps

/-- When a child of a node that is reached is detached, all that is reached is the tree without
it. -/
theorem LaysOut.detach (h : A.IsForest) (ht : A.LaysOut i t) (hx : t.subtree? p = some x)
    (hc : x.children[k]? = some c) :
    (A.detach (Layout.slot c)).LaysOut i (Tree.remove (p ++ [k]) t) := by
  obtain ⟨hview, -⟩ := keeps_iff.1 (ht.keeps.subtree? hx)
  -- the cell of the child names the one that loses it as its parent
  have hparent : (A[Layout.slot c]?).bind Cell.parent = some x.slot := by
    obtain ⟨d, hd, hcell⟩ := Option.map_eq_some_iff.1 hview
    have hmem : Layout.slot c ∈ d.children := by
      rw [(Prod.mk.inj hcell).2]
      exact List.mem_map_of_mem (List.mem_of_getElem? hc)
    obtain ⟨_, e, he, hparent⟩ := h.child _ d hd _ hmem
    rw [he]
    exact hparent
  have hviews (j : Nat) : (A.detach (Layout.slot c)).view j = (A.view j).map fun v =>
      (v.1, if x.slot = j then v.2.filter (· != Layout.slot c) else v.2) := by
    unfold view
    rw [getElem?_detach hparent, Option.map_map, Option.map_map]
    rfl
  have hsame (j : Nat) (hj : j ≠ x.slot) : (A.detach (Layout.slot c)).view j = A.view j := by
    rw [hviews]
    simp [hj.symm]
  -- that one is not below itself, so all cells below it are as they were
  have hsub : x.slots.Sublist t.slots := Layout.slots_sublist_of_subtree? hx
  have hnodup := ht.nodup.sublist hsub
  have hbelow := (ht.keeps.subtree? hx).children_of_view hnodup fun j _ hj => hsame j hj
  have hleft : (A.detach (Layout.slot c)).Keeps ⟨x.label, x.children.eraseIdx k⟩ := by
    refine keeps_iff.2 ⟨?_, fun d hd => hbelow d (List.mem_of_mem_eraseIdx hd)⟩
    show (A.detach (Layout.slot c)).view x.slot = some (x.label.2, (x.children.eraseIdx k).map _)
    rw [Layout.slots_eq, List.nodup_cons] at hnodup
    rw [hviews, hview, Option.map_some, if_pos rfl, Layout.filter_slot hnodup.2 hc]
  rw [Tree.remove_concat hx]
  exact ht.replace (h.detach (Layout.slot c)) hx rfl hleft fun j _ hj => hsame j hj

/-- What is detached, and what stands below it, is never reached again. -/
theorem LaysOut.not_reaches_of_steps (h : A.IsForest) (ht : A.LaysOut i t)
    (hx : t.subtree? p = some x) (hc : x.children[k]? = some c)
    (hsteps : Relation.ReflTransGen Step (A.detach (Layout.slot c)) B)
    (hj : j ∈ Layout.slots c) : ¬ Relation.ReflTransGen B.IsChild i j := by
  intro hreach
  have hck : t.subtree? (p ++ [k]) = some c := by
    rw [Tree.subtree?_append, hx, Option.bind_some, Tree.subtree?_cons, hc]
    rfl
  have hlength : j < (A.detach (Layout.slot c)).length := by
    rw [length_detach]
    exact ht.keeps.lt ((Layout.slots_sublist_of_subtree? hck).subset hj)
  have hback := (h.detach (Layout.slot c)).reaches_of_steps hsteps hlength hreach
  have hleft := ((ht.detach h hx hc).mem_iff j).2 hback
  exact Layout.not_mem_slots_remove ht.nodup (by simp) hck hj hleft

end Arena

end YangSchema
