import YangSchema.Proofs.AugmentFrame

/-!
# Conditions on siblings

Some properties of trees are conditions on a node and its children alone, which every node has to
meet (`Tree.Everywhere`): that siblings have different names, say, or that a statement may have the
substatements that it has. Where such a condition outlives the loss of children
(`Tree.Hereditary`), it outlives all changes of a tree but for the growth of a node; and where a
node grows, all depends on what this node and its children are then
(`Forest.everywhere_replace_addChildren_iff`). As augments do nothing but make nodes grow, applying
them in turn keeps such a condition if each of them keeps it at its target
(`Augmentation.everywhere_applyOne_iff`).
-/

namespace YangSchema

namespace Tree

variable {α β : Type} {P : α → List α → Prop} {t u x c : Tree α} {ts cs : List (Tree α)}
  {p : List Nat}

/-- A condition holds of the label of every node and of the labels of its children. -/
def Everywhere (P : α → List α → Prop) (t : Tree α) : Prop :=
  ∀ x ∈ t.subtrees, P x.label (x.children.map label)

/-- A condition that holds of fewer children if it holds of more. -/
def Hereditary (P : α → List α → Prop) : Prop :=
  ∀ a as bs, List.Sublist as bs → P a bs → P a as

theorem everywhere_iff : t.Everywhere P
    ↔ P t.label (t.children.map label) ∧ ∀ c ∈ t.children, c.Everywhere P := by
  unfold Everywhere
  constructor
  · intro h
    exact ⟨h t (mem_subtrees_self t), fun c hc x hx => h x (mem_subtrees_of_mem_child hc hx)⟩
  · rintro ⟨hroot, hchildren⟩ x hx
    rcases mem_subtrees.1 hx with rfl | ⟨c, hc, hx⟩
    · exact hroot
    · exact hchildren c hc x hx

namespace Everywhere

theorem root (h : t.Everywhere P) : P t.label (t.children.map label) := (everywhere_iff.1 h).1

theorem child (h : t.Everywhere P) (hc : c ∈ t.children) : c.Everywhere P :=
  (everywhere_iff.1 h).2 c hc

theorem subtree? (h : t.Everywhere P) (hx : t.subtree? p = some x) : x.Everywhere P := by
  induction p generalizing t with
  | nil => exact Option.some.inj hx ▸ h
  | cons i p ih =>
    obtain ⟨c, hc, hx⟩ := Option.bind_eq_some_iff.1 hx
    exact ih (h.child (List.mem_of_getElem? hc)) hx

/-- Relabelling a tree. -/
theorem map_iff {Q : β → List β → Prop} {f : α → β} :
    (t.map f).Everywhere Q ↔ t.Everywhere fun a as => Q (f a) (as.map f) := by
  induction t using induct with
  | step t ih =>
    obtain ⟨a, cs⟩ := t
    rw [everywhere_iff, everywhere_iff, Tree.map, mapForest_eq]
    simp only [List.map_map, List.forall_mem_map]
    have hlabels : cs.map (label ∘ Tree.map f) = cs.map (f ∘ label) := by
      apply List.map_congr_left
      rintro ⟨b, ds⟩ _
      rfl
    rw [hlabels]
    apply and_congr_right
    intro _
    exact forall₂_congr ih

/-! ### Changing a tree -/

theorem addChildren (h : t.Everywhere P) (hcs : ∀ c ∈ cs, c.Everywhere P)
    (hroot : P t.label ((t.children ++ cs).map label)) : (t.addChildren cs).Everywhere P :=
  everywhere_iff.2 ⟨hroot, List.forall_mem_append.2 ⟨fun _ hc => h.child hc, hcs⟩⟩

theorem removeChildren {q : Tree α → Bool} (hP : Hereditary P) (h : t.Everywhere P) :
    (t.removeChildren q).Everywhere P := by
  refine everywhere_iff.2 ⟨hP _ _ _ (List.filter_sublist.map label) h.root, ?_⟩
  intro c hc
  exact h.child (List.mem_of_mem_filter hc)

/-- Changing a child, but not its label. -/
theorem modify {i : Nat} {f : Tree α → Tree α} (h : t.Everywhere P)
    (hf : ∀ c, t.children[i]? = some c → (f c).label = c.label ∧ (f c).Everywhere P) :
    (⟨t.label, t.children.modify i f⟩ : Tree α).Everywhere P := by
  have hlabels : (t.children.modify i f).map label = t.children.map label := by
    refine List.ext_getElem? fun j => ?_
    rw [List.getElem?_map, List.getElem?_map]
    by_cases hij : i = j
    · subst hij
      rw [List.getElem?_modify_eq]
      cases hc : t.children[i]? with
      | none => rfl
      | some c => exact congrArg some (hf c hc).1
    · rw [List.getElem?_modify_ne _ _ hij]
  refine everywhere_iff.2 ⟨?_, ?_⟩
  · rw [hlabels]
    exact h.root
  · intro c hc
    obtain ⟨j, hj⟩ := List.mem_iff_getElem?.1 hc
    rw [List.getElem?_modify] at hj
    obtain ⟨d, hd, rfl⟩ := Option.map_eq_some_iff.1 hj
    split
    · rename_i hij
      subst hij
      exact (hf d hd).2
    · exact h.child (List.mem_of_getElem? hd)

theorem label_replace (hx : t.subtree? p = some x) (hlabel : u.label = x.label) :
    (Tree.replace u p t).label = t.label := by
  cases p with
  | nil => rw [Tree.replace, hlabel, Option.some.inj hx]
  | cons i p => rfl

/-- Putting a tree in the place of one with the same label. -/
theorem replace (h : t.Everywhere P) (hx : t.subtree? p = some x) (hlabel : u.label = x.label)
    (hu : u.Everywhere P) : (Tree.replace u p t).Everywhere P := by
  induction p generalizing t with
  | nil => exact hu
  | cons i p ih =>
    obtain ⟨c, hc, hx⟩ := Option.bind_eq_some_iff.1 hx
    rw [Tree.replace]
    refine h.modify fun d hd => ?_
    cases hc.symm.trans hd
    exact ⟨label_replace hx hlabel, ih (h.child (List.mem_of_getElem? hc)) hx⟩

theorem remove (hP : Hereditary P) (h : t.Everywhere P) : (Tree.remove p t).Everywhere P := by
  induction p generalizing t with
  | nil => exact h
  | cons i p ih =>
    cases p with
    | nil =>
      refine everywhere_iff.2 ⟨hP _ _ _ ((List.eraseIdx_sublist _ _).map label) h.root, ?_⟩
      intro c hc
      exact h.child (List.mem_of_mem_eraseIdx hc)
    | cons j rest =>
      rw [Tree.remove]
      refine h.modify fun c hc => ?_
      exact ⟨label_remove, ih (h.child (List.mem_of_getElem? hc))⟩

/-- What holds of an extension of a tree holds of the tree. -/
theorem of_extends (hP : Hereditary P) (htu : Extends t u) (hu : u.Everywhere P) :
    t.Everywhere P := by
  induction t using induct generalizing u with
  | step t ih =>
    refine everywhere_iff.2 ⟨?_, fun c hc => ?_⟩
    · have hroot := hu.root
      rw [htu.label] at hroot
      exact hP _ _ _ htu.children_prefix.sublist hroot
    · obtain ⟨i, hi⟩ := List.mem_iff_getElem?.1 hc
      obtain ⟨d, hd, hcd⟩ := htu.child hi
      exact ih c hc hcd (hu.child (List.mem_of_getElem? hd))

end Everywhere

end Tree

namespace Forest

variable {P : NodeLabel → List NodeLabel → Prop} {f g : Forest} {m : SourceId} {n r : Node}
  {Q : Place} {t : Target} {cs : List Node} {change : Node → Node}

/-- A condition holds everywhere in all trees. -/
def Everywhere (P : NodeLabel → List NodeLabel → Prop) (f : Forest) : Prop :=
  ∀ t ∈ f, t.root.Everywhere P

namespace Everywhere

theorem node? (h : f.Everywhere P) (hn : f.node? Q = some n) : n.Everywhere P := by
  obtain ⟨r, hr, hsub⟩ := Option.bind_eq_some_iff.1 hn
  obtain ⟨t, ht, rfl⟩ := Option.map_eq_some_iff.1 hr
  exact (h t (List.mem_of_find?_eq_some ht)).subtree? hsub

/-- What is at the top of a tree. -/
theorem statements {kind : Kind} (h : f.Everywhere P)
    (hn : n ∈ f.flatMap (·.statements kind)) : n.Everywhere P := by
  obtain ⟨t, ht, hn⟩ := List.mem_flatMap.1 hn
  exact (h t ht).child (List.mem_of_mem_filter hn)

theorem update (distinct : (f.map (·.id)).Nodup) (h : f.Everywhere P) (hr : f.root? m = some r)
    (hchange : (change r).Everywhere P) : (f.update m change).Everywhere P := by
  intro t ht
  obtain ⟨u, hu, rfl⟩ := List.mem_map.1 ht
  by_cases hm : u.id = m
  · have hroot := root?_of_mem distinct hu
    rw [hm, hr] at hroot
    cases hroot
    rw [if_pos hm]
    exact hchange
  · rw [if_neg hm]
    exact h u hu

/-- Putting a node in the place of a target with the same label. -/
theorem replace (distinct : (f.map (·.id)).Nodup) (h : f.Everywhere P)
    (ht : f.node? ⟨t.module, t.address⟩ = some t.node) (hlabel : n.label = t.node.label)
    (hn : n.Everywhere P) : (f.replace t n).Everywhere P := by
  obtain ⟨r, hr, hsub⟩ := Option.bind_eq_some_iff.1 ht
  have hroot := h.node? (Q := ⟨t.module, []⟩) (Option.bind_eq_some_iff.2 ⟨r, hr, rfl⟩)
  exact h.update distinct hr (hroot.replace hsub hlabel hn)

theorem remove (hP : Tree.Hereditary P) (distinct : (f.map (·.id)).Nodup) (h : f.Everywhere P)
    (ht : f.node? ⟨t.module, t.address⟩ = some t.node) : (f.remove t).Everywhere P := by
  obtain ⟨r, hr, _⟩ := Option.bind_eq_some_iff.1 ht
  have hroot := h.node? (Q := ⟨t.module, []⟩) (Option.bind_eq_some_iff.2 ⟨r, hr, rfl⟩)
  exact h.update distinct hr (hroot.remove hP)

/-- What holds of an extension of a forest holds of the forest. -/
theorem of_extends (hP : Tree.Hereditary P) (distinct : (f.map (·.id)).Nodup)
    (hfg : Extends f g) (hg : g.Everywhere P) : f.Everywhere P := by
  intro t ht
  obtain ⟨r, hr, hextends⟩ := hfg.root? (root?_of_mem distinct ht)
  have hroot := hg.node? (Q := ⟨t.id, []⟩) (Option.bind_eq_some_iff.2 ⟨r, hr, rfl⟩)
  exact hroot.of_extends hP hextends

end Everywhere

/-- Where a node grows, a condition that holds everywhere continues to do so exactly if it holds of
this node with its old and new children. -/
theorem everywhere_replace_addChildren_iff (distinct : (f.map (·.id)).Nodup)
    (h : f.Everywhere P) (ht : f.node? ⟨t.module, t.address⟩ = some t.node)
    (hcs : ∀ c ∈ cs, c.Everywhere P) : (f.replace t (t.node.addChildren cs)).Everywhere P
      ↔ P t.node.label ((t.node.children ++ cs).map Tree.label) := by
  constructor
  · intro hgrown
    obtain ⟨r, hr, hsub⟩ := Option.bind_eq_some_iff.1 ht
    have hnode : (f.replace t (t.node.addChildren cs)).node? ⟨t.module, t.address⟩
        = some (t.node.addChildren cs) := by
      refine Option.bind_eq_some_iff.2 ⟨_, ?_, Tree.subtree?_replace_self _ _ r (by simp [hsub])⟩
      show Forest.root? (f.update _ _) _ = _
      rw [root?_update_self, hr]
      rfl
    exact (hgrown.node? hnode).root
  · intro hroot
    exact h.replace distinct ht rfl ((h.node? ht).addChildren hcs hroot)

end Forest

namespace Augmentation

variable {P : NodeLabel → List NodeLabel → Prop} {model : DeclaredModel} {f g : Forest}
  {a c : Node} {as : List Node}

/-- A condition that does not see what augments leave on their copies: the mark, and conditions. -/
structure Unmarked (P : NodeLabel → List NodeLabel → Prop) : Prop where
  marked : ∀ l ls, P l ls → P { l with augmenting := true }
    (ls.map fun l => { l with augmenting := true })
  conditions : ∀ l ls cs, P l ls → P { l with conditions := cs } ls

theorem Unmarked.copies (hP : Unmarked P) (ha : a.Everywhere P) :
    ∀ c ∈ copies a, c.Everywhere P := by
  intro c hc
  obtain ⟨n, hn, rfl⟩ := List.mem_map.1 hc
  have hcontent := ha.child (List.mem_of_mem_filter hn)
  have hmarked : (Node.markAugmenting n).Everywhere P :=
    Tree.Everywhere.map_iff.2 fun x hx => hP.marked _ _ (hcontent x hx)
  rw [Tree.everywhere_iff] at hmarked ⊢
  exact ⟨hP.conditions _ _ _ hmarked.1, hmarked.2⟩

/-- One augment keeps a condition exactly if its target still meets it. -/
theorem everywhere_applyOne_iff (hP : Unmarked P) (distinct : (f.map (·.id)).Nodup)
    (hf : f.Everywhere P) (hcontent : a.Everywhere P) (ha : applyOne model f a = .ok g) :
    ∃ t, Forest.locate model f a.label.source (a.label.argument.getD "") = .ok t ∧ Admits a t.node
      ∧ (g.Everywhere P
        ↔ P t.node.label ((t.node.children ++ copies a).map Tree.label)) := by
  obtain ⟨t, ht, hadmits, rfl⟩ := exists_replace_of_applyOne ha
  refine ⟨t, ht, hadmits, ?_⟩
  exact Forest.everywhere_replace_addChildren_iff distinct hf (Forest.node?_of_locate ht)
    (hP.copies hcontent)

end Augmentation

end YangSchema
