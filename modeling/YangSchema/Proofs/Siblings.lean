import YangSchema.Proofs.Trees

/-!
# Trees up to the order of siblings

`Tree.Reordered may ts us`: the list `us` arises from `ts` by changing the places of siblings, at
any depth. Two siblings that stand side by side may change places if `may` holds of their labels;
all labels stay as they are. Where `may` always holds, this is equality of lists of unordered
labelled trees. `Tree.Rearranged` says the same of two trees.
-/

namespace YangSchema

namespace Tree

variable {α : Type} {may : α → α → Prop} {ts us vs : List (Tree α)} {t u v : Tree α}

/-- Lists of trees that differ in the order of siblings alone. -/
inductive Reordered (may : α → α → Prop) : List (Tree α) → List (Tree α) → Prop where
  | nil : Reordered may [] []
  | cons {a : α} {cs ds ts us : List (Tree α)} :
    Reordered may cs ds → Reordered may ts us → Reordered may (⟨a, cs⟩ :: ts) (⟨a, ds⟩ :: us)
  | swap {t u : Tree α} {ts : List (Tree α)} :
    may t.label u.label → Reordered may (t :: u :: ts) (u :: t :: ts)
  | trans {ts us vs : List (Tree α)} :
    Reordered may ts us → Reordered may us vs → Reordered may ts vs

/-- Trees with the same label whose children differ in the order of siblings alone. -/
structure Rearranged (may : α → α → Prop) (t u : Tree α) : Prop where
  label : t.label = u.label
  children : Reordered may t.children u.children

namespace Reordered

theorem refl : ∀ ts : List (Tree α), Reordered may ts ts
  | [] => .nil
  | ⟨_, cs⟩ :: ts => .cons (refl cs) (refl ts)

theorem cons_rearranged (h : Rearranged may t u) (hts : Reordered may ts us) :
    Reordered may (t :: ts) (u :: us) := by
  obtain ⟨a, cs⟩ := t
  obtain ⟨b, ds⟩ := u
  obtain ⟨rfl, hchildren⟩ := h
  exact .cons hchildren hts

theorem cons_self (t : Tree α) (h : Reordered may ts us) : Reordered may (t :: ts) (t :: us) :=
  cons_rearranged ⟨rfl, refl t.children⟩ h

theorem symm (hmay : ∀ a b, may a b → may b a) (h : Reordered may ts us) :
    Reordered may us ts := by
  induction h with
  | nil => exact .nil
  | cons _ _ ihc iht => exact .cons ihc iht
  | swap h => exact .swap (hmay _ _ h)
  | trans _ _ ih ih' => exact .trans ih' ih

theorem append_left (vs : List (Tree α)) (h : Reordered may ts us) :
    Reordered may (vs ++ ts) (vs ++ us) := by
  induction vs with
  | nil => exact h
  | cons v vs ih => exact cons_self v ih

theorem append_right (h : Reordered may ts us) (vs : List (Tree α)) :
    Reordered may (ts ++ vs) (us ++ vs) := by
  induction h with
  | nil => exact refl vs
  | cons hc _ _ iht => exact .cons hc iht
  | swap h => exact .swap h
  | trans _ _ ih ih' => exact .trans ih ih'

/-- A tree may move behind trees with each of which it may change places. -/
theorem cons_append (h : ∀ u ∈ us, may t.label u.label) :
    Reordered may (t :: (us ++ vs)) (us ++ t :: vs) := by
  induction us with
  | nil => exact refl _
  | cons u us ih =>
    exact (swap (h u List.mem_cons_self)).trans
      (cons_self u (ih fun v hv => h v (List.mem_cons_of_mem u hv)))

/-- Two lists of siblings may change places if all their trees may. -/
theorem append_comm (h : ∀ t ∈ ts, ∀ u ∈ us, may t.label u.label) :
    Reordered may (ts ++ us) (us ++ ts) := by
  induction ts with
  | nil =>
    rw [List.append_nil]
    exact refl us
  | cons t ts ih =>
    exact (cons_self t (ih fun v hv => h v (List.mem_cons_of_mem t hv))).trans
      (cons_append (h t List.mem_cons_self))

/-- The labels of siblings are permuted. -/
theorem perm_labels (h : Reordered may ts us) : (ts.map label).Perm (us.map label) := by
  induction h with
  | nil => exact .nil
  | cons _ _ _ iht => exact iht.cons _
  | swap _ => exact .swap _ _ _
  | trans _ _ ih ih' => exact ih.trans ih'

end Reordered

namespace Rearranged

theorem refl (t : Tree α) : Rearranged may t t := ⟨rfl, .refl _⟩

theorem trans (h : Rearranged may t u) (h' : Rearranged may u v) : Rearranged may t v :=
  ⟨h.label.trans h'.label, h.children.trans h'.children⟩

theorem symm (hmay : ∀ a b, may a b → may b a) (h : Rearranged may t u) : Rearranged may u t :=
  ⟨h.label.symm, h.children.symm hmay⟩

theorem addChildren (h : Rearranged may t u) (cs : List (Tree α)) :
    Rearranged may (t.addChildren cs) (u.addChildren cs) :=
  ⟨h.label, h.children.append_right cs⟩

end Rearranged

end Tree

end YangSchema
