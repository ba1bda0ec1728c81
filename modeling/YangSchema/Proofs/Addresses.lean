import Mathlib.Data.List.InsertIdx
import YangSchema.Proofs.Trees

/-!
# Addresses in growing trees

A tree grows when trees are added behind the children of one of its nodes. Its nodes stay where they
are (`Tree.Extends`), and the addresses of the grown tree are those of the tree and those of what
has been added (`Tree.labelAt?_replace_addChildren`); no address is both
(`Tree.labelAt?_behind_children`). What holds of all labels (`Tree.All`) holds still when a node is
replaced by one of which it holds.
-/

namespace YangSchema

namespace Tree

variable {α β : Type} {t u v x c : Tree α} {cs : List (Tree α)} {a : α} {i j : Nat}
  {p q r : List Nat}

/-! ## Labels at addresses -/

/-- The label of the node at an address. -/
def labelAt? (t : Tree α) (p : List Nat) : Option α := (t.subtree? p).map label

theorem labelAt?_cons_eq_some : t.labelAt? (i :: q) = some a
    ↔ ∃ c, t.children[i]? = some c ∧ c.labelAt? q = some a := by
  unfold labelAt?
  rw [subtree?_cons, Option.map_bind, Option.bind_eq_some_iff]
  rfl

theorem subtree?_append (t : Tree α) (p q : List Nat) :
    t.subtree? (p ++ q) = (t.subtree? p).bind (subtree? · q) := by
  induction p generalizing t with
  | nil => rfl
  | cons i p ih =>
    rw [List.cons_append, subtree?_cons, subtree?_cons, Option.bind_assoc]
    simp only [ih]

theorem labelAt?_append (hx : t.subtree? p = some x) : t.labelAt? (p ++ q) = x.labelAt? q := by
  unfold labelAt?
  rw [subtree?_append, hx]
  rfl

theorem mapForest_eq (f : α → β) (ts : List (Tree α)) : mapForest f ts = ts.map (map f) := by
  induction ts with
  | nil => rfl
  | cons t ts ih => rw [mapForest, ih, List.map_cons]

theorem map_modify {f : Tree α → Tree β} {g : Tree α → Tree α} {h : Tree β → Tree β}
    (hgh : ∀ t, f (g t) = h (f t)) (ts : List (Tree α)) (i : Nat) :
    (ts.modify i g).map f = (ts.map f).modify i h := by
  refine List.ext_getElem? fun j => ?_
  rw [List.getElem?_map, List.getElem?_modify, List.getElem?_modify, List.getElem?_map]
  split <;> simp [hgh, Function.comp_def]

/-- Relabelling keeps addresses. -/
theorem labelAt?_map (f : α → β) (t : Tree α) (p : List Nat) :
    (t.map f).labelAt? p = (t.labelAt? p).map f := by
  induction p generalizing t with
  | nil =>
    obtain ⟨b, ds⟩ := t
    rfl
  | cons i p ih =>
    obtain ⟨b, ds⟩ := t
    ext b'
    simp only [Option.map_eq_some_iff, labelAt?_cons_eq_some, map, mapForest_eq,
      List.getElem?_map]
    constructor
    · rintro ⟨_, ⟨c, hc, rfl⟩, hb⟩
      rw [ih] at hb
      obtain ⟨a, ha, rfl⟩ := Option.map_eq_some_iff.1 hb
      exact ⟨a, ⟨c, hc, ha⟩, rfl⟩
    · rintro ⟨a, ⟨c, hc, ha⟩, rfl⟩
      refine ⟨c.map f, ⟨c, hc, rfl⟩, ?_⟩
      rw [ih, ha]
      rfl

theorem subtree?_map (f : α → β) (t : Tree α) (p : List Nat) :
    (t.map f).subtree? p = (t.subtree? p).map (map f) := by
  induction p generalizing t with
  | nil => rfl
  | cons i p ih =>
    obtain ⟨a, cs⟩ := t
    rw [subtree?_cons, subtree?_cons, map, mapForest_eq, List.getElem?_map, Option.bind_map,
      Option.map_bind]
    simp only [Function.comp_def, ih]

theorem forestSubtree?_map (f : α → β) (ts : List (Tree α)) (p : List Nat) :
    forestSubtree? (ts.map (map f)) p = (forestSubtree? ts p).map (map f) := by
  cases p with
  | nil => rfl
  | cons i p =>
    rw [forestSubtree?, forestSubtree?, List.getElem?_map, Option.bind_map, Option.map_bind]
    simp only [Function.comp_def, subtree?_map]

theorem map_replace (f : α → β) (u : Tree α) (p : List Nat) (t : Tree α) :
    (replace u p t).map f = replace (u.map f) p (t.map f) := by
  induction p generalizing t with
  | nil => rfl
  | cons i p ih =>
    obtain ⟨a, cs⟩ := t
    rw [replace, map, map, replace, mapForest_eq, mapForest_eq, map_modify (ih ·)]

theorem label_remove {t : Tree α} {p : List Nat} : (remove p t).label = t.label := by
  unfold remove
  split <;> rfl

theorem map_remove (f : α → β) : ∀ (p : List Nat) (t : Tree α),
    (remove p t).map f = remove p (t.map f)
  | [], t => rfl
  | [i], ⟨a, cs⟩ => by
    rw [remove, map, map, remove, mapForest_eq, mapForest_eq, List.eraseIdx_map]
  | i :: j :: rest, ⟨a, cs⟩ => by
    rw [remove, map, map, remove, mapForest_eq, mapForest_eq,
      map_modify (map_remove f (j :: rest) ·)]

theorem map_forestReplace (f : α → β) (u : Tree α) (ts : List (Tree α)) (p : List Nat) :
    (forestReplace u ts p).map (map f) = forestReplace (u.map f) (ts.map (map f)) p := by
  cases p with
  | nil => rfl
  | cons i p => exact map_modify (map_replace f u p ·) ts i

theorem map_addChildren (f : α → β) (t : Tree α) (cs : List (Tree α)) :
    (t.addChildren cs).map f = (t.map f).addChildren (cs.map (map f)) := by
  obtain ⟨a, ds⟩ := t
  rw [addChildren, map, map, addChildren, mapForest_eq, mapForest_eq, List.map_append]

/-! ## Conditions on all labels -/

section All

variable {P : α → Prop} {ts : List (Tree α)}

/-- A condition holds of the labels of a node and of all nodes below it. -/
def All (P : α → Prop) (t : Tree α) : Prop := ∀ a ∈ t.preorder, P a

theorem mem_forestPreorder {a : α} : a ∈ forestPreorder ts ↔ ∃ t ∈ ts, a ∈ t.preorder := by
  induction ts with
  | nil => simp [forestPreorder]
  | cons t ts ih => rw [forestPreorder, List.mem_append, ih]; simp

theorem all_iff : t.All P ↔ P t.label ∧ ∀ c ∈ t.children, c.All P := by
  obtain ⟨a, cs⟩ := t
  unfold All
  rw [preorder, List.forall_mem_cons]
  refine and_congr_right fun _ => ⟨fun h c hc b hb => ?_, fun h b hb => ?_⟩
  · exact h b (mem_forestPreorder.2 ⟨c, hc, hb⟩)
  · obtain ⟨c, hc, hb⟩ := mem_forestPreorder.1 hb
    exact h c hc b hb

theorem All.subtree? (h : t.All P) (hx : t.subtree? p = some x) : x.All P := by
  induction p generalizing t with
  | nil => exact Option.some.inj hx ▸ h
  | cons i p ih =>
    rw [subtree?_cons] at hx
    obtain ⟨c, hc, hx⟩ := Option.bind_eq_some_iff.1 hx
    exact ih ((all_iff.1 h).2 c (List.mem_of_getElem? hc)) hx

theorem all_of_mem_modify {i : Nat} {f : Tree α → Tree α} (h : ∀ t ∈ ts, t.All P)
    (hf : ∀ t ∈ ts, (f t).All P) : ∀ t ∈ ts.modify i f, t.All P := by
  intro t ht
  obtain ⟨j, hj⟩ := List.mem_iff_getElem?.1 ht
  rw [List.getElem?_modify] at hj
  obtain ⟨d, hd, rfl⟩ := Option.map_eq_some_iff.1 hj
  have hmem := List.mem_of_getElem? hd
  split
  · exact hf d hmem
  · exact h d hmem

theorem All.replace (h : t.All P) (hu : u.All P) : (replace u p t).All P := by
  induction p generalizing t with
  | nil => exact hu
  | cons i p ih =>
    obtain ⟨hlabel, hchildren⟩ := all_iff.1 h
    exact all_iff.2 ⟨hlabel, all_of_mem_modify hchildren fun c hc => ih (hchildren c hc)⟩

theorem All.forestSubtree? (h : ∀ t ∈ ts, t.All P) (hx : forestSubtree? ts p = some x) :
    x.All P := by
  cases p with
  | nil => cases hx
  | cons i p =>
    obtain ⟨t, ht, hx⟩ := Option.bind_eq_some_iff.1 hx
    exact (h t (List.mem_of_getElem? ht)).subtree? hx

theorem All.forestReplace (h : ∀ t ∈ ts, t.All P) (hu : u.All P) :
    ∀ t ∈ forestReplace u ts p, t.All P := by
  cases p with
  | nil => exact h
  | cons i p => exact all_of_mem_modify h fun t ht => (h t ht).replace hu

theorem All.map {Q : β → Prop} {f : α → β} (h : t.All P) (hf : ∀ a, P a → Q (f a)) :
    (t.map f).All Q := by
  intro b hb
  rw [preorder_map] at hb
  obtain ⟨a, ha, rfl⟩ := List.mem_map.1 hb
  exact hf a (h a ha)

theorem All.addChildren (h : t.All P) (hu : ∀ u ∈ ts, u.All P) : (t.addChildren ts).All P := by
  obtain ⟨hlabel, hchildren⟩ := all_iff.1 h
  exact all_iff.2 ⟨hlabel, List.forall_mem_append.2 ⟨hchildren, hu⟩⟩

theorem All.removeChildren {p : Tree α → Bool} (h : t.All P) : (t.removeChildren p).All P := by
  obtain ⟨hlabel, hchildren⟩ := all_iff.1 h
  exact all_iff.2 ⟨hlabel, fun c hc => hchildren c (List.mem_of_mem_filter hc)⟩

end All

/-! ## Extending a tree -/

/-- `u` has all nodes of `t` where `t` has them. -/
def Extends (t u : Tree α) : Prop := ∀ p a, t.labelAt? p = some a → u.labelAt? p = some a

namespace Extends

theorem refl (t : Tree α) : Extends t t := fun _ _ h => h

theorem trans (h : Extends t u) (h' : Extends u v) : Extends t v :=
  fun p a ha => h' p a (h p a ha)

theorem label (h : Extends t u) : u.label = t.label := Option.some.inj (h [] t.label rfl)

theorem subtree? (h : Extends t u) (hx : t.subtree? p = some x) :
    ∃ y, u.subtree? p = some y ∧ Extends x y := by
  have hp : u.labelAt? p = some x.label := by
    apply h
    unfold labelAt?
    rw [hx]
    rfl
  obtain ⟨y, hy, _⟩ := Option.map_eq_some_iff.1 hp
  refine ⟨y, hy, fun q a hq => ?_⟩
  rw [← labelAt?_append hy]
  apply h
  rwa [labelAt?_append hx]

theorem child (h : Extends t u) (hc : t.children[i]? = some c) :
    ∃ d, u.children[i]? = some d ∧ Extends c d := by
  have hsub : t.subtree? [i] = some c := by
    rw [subtree?_cons, hc]
    rfl
  obtain ⟨d, hd, hcd⟩ := h.subtree? hsub
  rw [subtree?_cons] at hd
  obtain ⟨d', hd', hnil⟩ := Option.bind_eq_some_iff.1 hd
  cases hnil
  exact ⟨d, hd', hcd⟩

/-- The children of the tree come first, and in their order. -/
theorem children_prefix (h : Extends t u) :
    t.children.map Tree.label <+: u.children.map Tree.label := by
  rw [List.prefix_iff_getElem?]
  intro i hi
  rw [List.length_map] at hi
  obtain ⟨d, hd, hcd⟩ := h.child (List.getElem?_eq_getElem hi)
  rw [List.getElem?_map, hd, List.getElem_map]
  exact congrArg some hcd.label

end Extends

/-! ## Growing -/

theorem labelAt?_addChildren : (x.addChildren cs).labelAt? q = some a
    ↔ x.labelAt? q = some a
      ∨ ∃ j c r, cs[j]? = some c ∧ q = (x.children.length + j) :: r ∧ c.labelAt? r = some a := by
  cases q with
  | nil =>
    constructor
    · exact .inl
    · rintro (h | ⟨_, _, _, _, h, _⟩)
      · exact h
      · cases h
  | cons i r =>
    rw [labelAt?_cons_eq_some, labelAt?_cons_eq_some]
    show (∃ c, (x.children ++ cs)[i]? = some c ∧ _) ↔ _
    rcases Nat.lt_or_ge i x.children.length with hi | hi
    · rw [List.getElem?_append_left hi]
      constructor
      · exact .inl
      · rintro (h | ⟨j, _, _, _, h, _⟩)
        · exact h
        · have hij := (List.cons.inj h).1
          omega
    · obtain ⟨j, rfl⟩ := Nat.exists_eq_add_of_le hi
      rw [List.getElem?_append_right hi, Nat.add_sub_cancel_left]
      constructor
      · rintro ⟨c, hc, ha⟩
        exact .inr ⟨j, c, r, hc, rfl, ha⟩
      · rintro (⟨c, hc, _⟩ | ⟨k, c, s, hc, h, ha⟩)
        · rw [List.getElem?_eq_none hi] at hc
          cases hc
        · obtain ⟨hjk, rfl⟩ := List.cons.inj h
          rw [Nat.add_left_cancel hjk]
          exact ⟨c, hc, ha⟩

/-- The addresses of a tree in which a node has grown. -/
theorem labelAt?_replace_addChildren (hx : t.subtree? p = some x) :
    (replace (x.addChildren cs) p t).labelAt? q = some a
      ↔ t.labelAt? q = some a ∨ ∃ j c r, cs[j]? = some c
        ∧ q = p ++ (x.children.length + j) :: r ∧ c.labelAt? r = some a := by
  induction p generalizing t q with
  | nil =>
    cases hx
    exact labelAt?_addChildren
  | cons i p ih =>
    obtain ⟨b, hb, hbelow⟩ := Option.bind_eq_some_iff.1 hx
    rw [replace]
    cases q with
    | nil =>
      constructor
      · exact .inl
      · rintro (h | ⟨_, _, _, _, h, _⟩)
        · exact h
        · cases h
    | cons k q =>
      rw [labelAt?_cons_eq_some, labelAt?_cons_eq_some]
      by_cases hik : i = k
      · subst hik
        rw [List.getElem?_modify_eq, hb]
        simp only [Option.map_eq_map, Option.map_some, Option.some.injEq, exists_eq_left',
          List.cons_append, List.cons.injEq, true_and]
        exact ih hbelow
      · rw [List.getElem?_modify_ne _ _ hik]
        constructor
        · exact .inl
        · rintro (h | ⟨_, _, _, _, h, _⟩)
          · exact h
          · exact absurd (List.cons.inj h).1.symm hik

/-- Behind the children of a node there is nothing. -/
theorem labelAt?_behind_children (hx : t.subtree? p = some x) :
    t.labelAt? (p ++ (x.children.length + j) :: r) = none := by
  rw [labelAt?_append hx]
  unfold labelAt?
  rw [subtree?_cons, List.getElem?_eq_none (Nat.le_add_right _ _)]
  rfl

end Tree

end YangSchema
