import YangSchema.Proofs.Siblings
import YangSchema.Schema.Augmentation

/-!
# Walking down by names

A schema path leads from a node to the first of its children that has the module and the name of a
step, and so on (`Node.descend?`). What comes to stand behind the children of a node (`Node.grow`)
does not change where a path leads, and only nodes of its own names make a path lead somewhere that
led nowhere before.

Siblings with different names may change places without a path noticing: trees that are rearranged
in this way (`NodeLabel.Apart`) have the same nodes at the end of every path
(`Node.descend?_rearranged`), and it does not matter which of two nodes grows first
(`Node.grow_comm`).
-/

namespace YangSchema

open YangSchema.Tree (Reordered Rearranged)

/-- Paths tell two siblings apart by their modules and names. -/
def NodeLabel.Apart (a b : NodeLabel) : Prop := (a.module, a.schemaName) ≠ (b.module, b.schemaName)

namespace Node

open Augmentation (nameOf)

/-- What a step of a path says of a node: its module and its name. -/
abbrev Name := SourceId × String

/-- Whether a node is a schema node with a name. -/
def hasName (k : Name) (n : Node) : Bool := isSchemaNode n && decide (nameOf n = k)

/-- The node to which names lead, each to the first child that has it. -/
def descend? : List Name → Node → Option Node
  | [], n => some n
  | k :: ks, n => (n.children.find? (hasName k)).bind (descend? ks)

/-- Changes the first node with a name. -/
def changeFirst (k : Name) (g : Node → Node) (ns : List Node) : List Node :=
  ns.modify (ns.findIdx (hasName k)) g

/-- Adds nodes behind the children of the node to which names lead. -/
def grow (cs : List Node) : List Name → Node → Node
  | [], n => n.addChildren cs
  | k :: ks, n => ⟨n.label, changeFirst k (grow cs ks) n.children⟩

variable {k l : Name} {ks ls : List Name} {g h : Node → Node} {cs ds ms ns : List Node}
  {c m n t u x : Node}

theorem descend?_cons_eq_some : descend? (k :: ks) n = some x
    ↔ ∃ c, n.children.find? (hasName k) = some c ∧ descend? ks c = some x :=
  Option.bind_eq_some_iff

theorem hasName_congr (h : m.label = n.label) : hasName k m = hasName k n := by
  unfold hasName isSchemaNode nameOf schemaName
  rw [h]

theorem nameOf_of_hasName (h : hasName k n = true) : nameOf n = k := by
  unfold hasName at h
  rw [Bool.and_eq_true, decide_eq_true_iff] at h
  exact h.2

/-- A node has one name only. -/
theorem not_hasName_of_ne (hkl : k ≠ l) (h : hasName k n = true) : ¬ hasName l n = true :=
  fun hl => hkl ((nameOf_of_hasName h).symm.trans (nameOf_of_hasName hl))

/-! ## The first node with a name -/

theorem changeFirst_cons_of_pos (h : hasName k n = true) :
    changeFirst k g (n :: ns) = g n :: ns := by
  rw [changeFirst, List.findIdx_cons, h]
  rfl

theorem changeFirst_cons_of_neg (h : ¬ hasName k n = true) :
    changeFirst k g (n :: ns) = n :: changeFirst k g ns := by
  rw [changeFirst, List.findIdx_cons, Bool.eq_false_iff.2 h]
  rfl

theorem map_label_changeFirst (hg : ∀ n, (g n).label = n.label) :
    (changeFirst k g ns).map Tree.label = ns.map Tree.label := by
  induction ns with
  | nil => rfl
  | cons n ns ih =>
    by_cases h : hasName k n = true
    · rw [changeFirst_cons_of_pos h, List.map_cons, List.map_cons, hg]
    · rw [changeFirst_cons_of_neg h, List.map_cons, List.map_cons, ih]

/-- What is changed without its label is found as it is then. -/
theorem find?_changeFirst_self (hg : ∀ n, (g n).label = n.label) :
    (changeFirst k g ns).find? (hasName k) = (ns.find? (hasName k)).map g := by
  induction ns with
  | nil => rfl
  | cons n ns ih =>
    by_cases h : hasName k n = true
    · rw [changeFirst_cons_of_pos h, List.find?_cons_of_pos ((hasName_congr (hg n)).trans h),
        List.find?_cons_of_pos h]
      rfl
    · rw [changeFirst_cons_of_neg h, List.find?_cons_of_neg h, List.find?_cons_of_neg h, ih]

theorem find?_changeFirst_of_ne (hg : ∀ n, (g n).label = n.label) (hkl : k ≠ l) :
    (changeFirst k g ns).find? (hasName l) = ns.find? (hasName l) := by
  induction ns with
  | nil => rfl
  | cons n ns ih =>
    by_cases h : hasName k n = true
    · have hn := not_hasName_of_ne hkl h
      rw [changeFirst_cons_of_pos h, List.find?_cons_of_neg hn,
        List.find?_cons_of_neg (by rwa [hasName_congr (hg n)])]
    · rw [changeFirst_cons_of_neg h, List.find?_cons, List.find?_cons, ih]

theorem changeFirst_append (h : ns.find? (hasName k) = some x) :
    changeFirst k g (ns ++ ms) = changeFirst k g ns ++ ms := by
  induction ns with
  | nil => cases h
  | cons n ns ih =>
    by_cases hn : hasName k n = true
    · rw [List.cons_append, changeFirst_cons_of_pos hn, changeFirst_cons_of_pos hn,
        List.cons_append]
    · rw [List.find?_cons_of_neg hn] at h
      rw [List.cons_append, changeFirst_cons_of_neg hn, changeFirst_cons_of_neg hn, ih h,
        List.cons_append]

theorem changeFirst_changeFirst_self (hh : ∀ n, (h n).label = n.label) :
    changeFirst k g (changeFirst k h ns) = changeFirst k (fun n => g (h n)) ns := by
  induction ns with
  | nil => rfl
  | cons n ns ih =>
    by_cases hn : hasName k n = true
    · rw [changeFirst_cons_of_pos hn, changeFirst_cons_of_pos hn,
        changeFirst_cons_of_pos ((hasName_congr (hh n)).trans hn)]
    · rw [changeFirst_cons_of_neg hn, changeFirst_cons_of_neg hn, changeFirst_cons_of_neg hn, ih]

theorem changeFirst_comm (hg : ∀ n, (g n).label = n.label) (hh : ∀ n, (h n).label = n.label)
    (hkl : k ≠ l) :
    changeFirst k g (changeFirst l h ns) = changeFirst l h (changeFirst k g ns) := by
  induction ns with
  | nil => rfl
  | cons n ns ih =>
    by_cases hk : hasName k n = true
    · have hl := not_hasName_of_ne hkl hk
      have hgl : ¬ hasName l (g n) = true := by rwa [hasName_congr (hg n)]
      rw [changeFirst_cons_of_neg hl, changeFirst_cons_of_pos hk, changeFirst_cons_of_pos hk,
        changeFirst_cons_of_neg hgl]
    · rw [changeFirst_cons_of_neg hk]
      by_cases hl : hasName l n = true
      · have hhk : ¬ hasName k (h n) = true := by rwa [hasName_congr (hh n)]
        rw [changeFirst_cons_of_pos hl, changeFirst_cons_of_pos hl, changeFirst_cons_of_neg hhk]
      · rw [changeFirst_cons_of_neg hl, changeFirst_cons_of_neg hl, changeFirst_cons_of_neg hk, ih]

/-! ## Growing -/

@[simp] theorem label_grow (cs : List Node) (ks : List Name) (n : Node) :
    (grow cs ks n).label = n.label := by cases ks <;> rfl

/-- The names of the schema nodes among the children. -/
def childNames (n : Node) : List Name := (schemaChildren n).map nameOf

/-- The names of children are a matter of their labels. -/
theorem childNames_eq : childNames n = ((n.children.map Tree.label).filter
    NodeLabel.isSchemaNode).map fun a => (a.module, a.schemaName) := by
  rw [List.filter_map, List.map_map]
  rfl

theorem childNames_congr (h : m.children.map Tree.label = n.children.map Tree.label) :
    childNames m = childNames n := by
  rw [childNames_eq, childNames_eq, h]

theorem childNames_addChildren :
    childNames (n.addChildren cs) = childNames n ++ (cs.filter isSchemaNode).map nameOf := by
  unfold childNames schemaChildren Tree.addChildren
  rw [List.filter_append, List.map_append]

/-- Where a path has led it leads when something has grown: to the same node, under which there is
more if it is the one that has grown. -/
theorem descend?_grow (cs : List Node) (ks : List Name) (hn : descend? ls t = some n) :
    ∃ n', descend? ls (grow cs ks t) = some n' ∧ n'.label = n.label ∧ childNames n'
      = childNames n ++ if ls = ks then (cs.filter isSchemaNode).map nameOf else [] := by
  induction ls generalizing ks t with
  | nil =>
    rw [descend?, Option.some.injEq] at hn
    subst hn
    refine ⟨_, rfl, label_grow cs ks t, ?_⟩
    -- the path ends here: there are new children only if the growth ends here too
    cases ks with
    | nil => exact childNames_addChildren
    | cons k ks =>
      rw [if_neg (List.cons_ne_nil k ks).symm, List.append_nil]
      exact childNames_congr (map_label_changeFirst (label_grow cs ks))
  | cons l ls ih =>
    obtain ⟨c, hc, hbelow⟩ := descend?_cons_eq_some.1 hn
    cases ks with
    | nil =>
      refine ⟨n, descend?_cons_eq_some.2 ⟨c, ?_, hbelow⟩, rfl, ?_⟩
      · rw [grow, Tree.addChildren, List.find?_append, hc]
        rfl
      · rw [if_neg (List.cons_ne_nil l ls), List.append_nil]
    | cons k ks =>
      by_cases hkl : k = l
      · subst hkl
        obtain ⟨n', hn', hlabel, hnames⟩ := ih ks hbelow
        refine ⟨n', descend?_cons_eq_some.2 ⟨grow cs ks c, ?_, hn'⟩, hlabel, ?_⟩
        · rw [grow, find?_changeFirst_self (label_grow cs ks), hc]
          rfl
        · rw [hnames]
          simp only [List.cons.injEq, true_and]
      · -- what has grown is another child, which the path does not enter
        refine ⟨n, descend?_cons_eq_some.2 ⟨c, ?_, hbelow⟩, rfl, ?_⟩
        · rw [grow, find?_changeFirst_of_ne (label_grow cs ks) hkl, hc]
        · rw [if_neg fun h => hkl (List.cons.inj h).1.symm, List.append_nil]

/-- A path that goes through none of the names that have come new leads nowhere else than
before. -/
theorem exists_descend?_of_grow (hnew : ∀ l ∈ ls, ∀ c ∈ cs, ¬ hasName l c = true)
    (hn : descend? ls (grow cs ks t) = some n) : ∃ n', descend? ls t = some n' := by
  induction ls generalizing ks t with
  | nil => exact ⟨t, rfl⟩
  | cons l ls ih =>
    obtain ⟨c, hc, hbelow⟩ := descend?_cons_eq_some.1 hn
    have hrest := fun l' hl' => hnew l' (List.mem_cons_of_mem l hl')
    cases ks with
    | nil =>
      rw [grow, Tree.addChildren, List.find?_append,
        List.find?_eq_none.2 (hnew l List.mem_cons_self), Option.or_none] at hc
      exact ⟨n, descend?_cons_eq_some.2 ⟨c, hc, hbelow⟩⟩
    | cons k ks =>
      rw [grow] at hc
      by_cases hkl : k = l
      · subst hkl
        rw [find?_changeFirst_self (label_grow cs ks)] at hc
        obtain ⟨d, hd, rfl⟩ := Option.map_eq_some_iff.1 hc
        obtain ⟨n', hn'⟩ := ih hrest hbelow
        exact ⟨n', descend?_cons_eq_some.2 ⟨d, hd, hn'⟩⟩
      · rw [find?_changeFirst_of_ne (label_grow cs ks) hkl] at hc
        exact ⟨n, descend?_cons_eq_some.2 ⟨c, hc, hbelow⟩⟩

/-! ## Rearranged trees -/

/-- The first nodes with a name correspond to each other: no other one takes their place. -/
theorem find?_reordered (h : Reordered NodeLabel.Apart ms ns)
    (hm : ms.find? (hasName k) = some m) :
    ∃ n, ns.find? (hasName k) = some n ∧ Rearranged NodeLabel.Apart m n := by
  induction h generalizing m with
  | nil => cases hm
  | @cons a cs ds ts us hchildren _ _ ih =>
    have hcongr : hasName k ⟨a, cs⟩ = hasName k ⟨a, ds⟩ := hasName_congr rfl
    by_cases hk : hasName k ⟨a, cs⟩ = true
    · rw [List.find?_cons_of_pos hk] at hm
      cases hm
      exact ⟨_, List.find?_cons_of_pos (hcongr ▸ hk), rfl, hchildren⟩
    · rw [List.find?_cons_of_neg hk] at hm
      rw [List.find?_cons_of_neg (hcongr ▸ hk)]
      exact ih hm
  | @swap t u ts hapart =>
    refine ⟨m, ?_, .refl m⟩
    by_cases ht : hasName k t = true
    · -- the two have different names, so that the other one is passed over
      have hu : ¬ hasName k u = true := by
        intro hu
        exact hapart ((nameOf_of_hasName ht).trans (nameOf_of_hasName hu).symm)
      rw [List.find?_cons_of_neg hu, List.find?_cons_of_pos ht]
      rwa [List.find?_cons_of_pos ht] at hm
    · rw [List.find?_cons_of_neg ht] at hm
      rw [← hm, List.find?_cons, List.find?_cons_of_neg ht, ← List.find?_cons]
  | trans _ _ ih ih' =>
    obtain ⟨n, hn, hmn⟩ := ih hm
    obtain ⟨x, hx, hnx⟩ := ih' hn
    exact ⟨x, hx, hmn.trans hnx⟩

/-- Rearranged trees have the same nodes at the end of every path. -/
theorem descend?_rearranged (h : Rearranged NodeLabel.Apart t u)
    (hm : descend? ks t = some m) :
    ∃ n, descend? ks u = some n ∧ Rearranged NodeLabel.Apart m n := by
  induction ks generalizing t u with
  | nil =>
    cases hm
    exact ⟨u, rfl, h⟩
  | cons k ks ih =>
    obtain ⟨c, hc, hbelow⟩ := descend?_cons_eq_some.1 hm
    obtain ⟨d, hd, hcd⟩ := find?_reordered h.children hc
    obtain ⟨n, hn, hmn⟩ := ih hcd hbelow
    exact ⟨n, descend?_cons_eq_some.2 ⟨d, hd, hn⟩, hmn⟩

theorem childNames_perm (h : Rearranged NodeLabel.Apart t u) :
    (childNames t).Perm (childNames u) := by
  rw [childNames_eq, childNames_eq]
  exact (h.children.perm_labels.filter _).map _

/-- Changing the first node with a name in both of two rearranged lists. -/
theorem changeFirst_reordered (hg : ∀ n, (g n).label = n.label)
    (hcongr : ∀ m n, Rearranged NodeLabel.Apart m n → Rearranged NodeLabel.Apart (g m) (g n))
    (h : Reordered NodeLabel.Apart ms ns) :
    Reordered NodeLabel.Apart (changeFirst k g ms) (changeFirst k g ns) := by
  induction h with
  | nil => exact .nil
  | @cons a cs ds ts us hchildren htail _ ih =>
    have hhead : Rearranged NodeLabel.Apart (⟨a, cs⟩ : Node) ⟨a, ds⟩ := ⟨rfl, hchildren⟩
    have hname : hasName k ⟨a, cs⟩ = hasName k ⟨a, ds⟩ := hasName_congr rfl
    by_cases hk : hasName k ⟨a, cs⟩ = true
    · rw [changeFirst_cons_of_pos hk, changeFirst_cons_of_pos (hname ▸ hk)]
      exact .cons_rearranged (hcongr _ _ hhead) htail
    · rw [changeFirst_cons_of_neg hk, changeFirst_cons_of_neg (hname ▸ hk)]
      exact .cons hchildren ih
  | @swap t u ts hapart =>
    by_cases ht : hasName k t = true
    · have hu : ¬ hasName k u = true := fun hu =>
        hapart ((nameOf_of_hasName ht).trans (nameOf_of_hasName hu).symm)
      rw [changeFirst_cons_of_pos ht, changeFirst_cons_of_neg hu, changeFirst_cons_of_pos ht]
      exact .swap (by rwa [hg])
    · rw [changeFirst_cons_of_neg ht]
      by_cases hu : hasName k u = true
      · rw [changeFirst_cons_of_pos hu, changeFirst_cons_of_pos hu]
        exact .swap (by rwa [hg])
      · rw [changeFirst_cons_of_neg hu, changeFirst_cons_of_neg hu, changeFirst_cons_of_neg ht]
        exact .swap hapart
  | trans _ _ ih ih' => exact ih.trans ih'

/-- Rearranged trees grow alike. -/
theorem grow_rearranged (h : Rearranged NodeLabel.Apart t u) :
    Rearranged NodeLabel.Apart (grow cs ks t) (grow cs ks u) := by
  induction ks generalizing t u with
  | nil => exact h.addChildren cs
  | cons k ks ih =>
    exact ⟨h.label, changeFirst_reordered (label_grow cs ks) (fun _ _ => ih) h.children⟩

/-- Changes of the first node with a name that come out alike on the node that is found. -/
theorem changeFirst_of_find? (hc : ns.find? (hasName k) = some c)
    (hgh : Rearranged NodeLabel.Apart (g c) (h c)) :
    Reordered NodeLabel.Apart (changeFirst k g ns) (changeFirst k h ns) := by
  induction ns with
  | nil => cases hc
  | cons n ns ih =>
    by_cases hn : hasName k n = true
    · rw [List.find?_cons_of_pos hn] at hc
      cases hc
      rw [changeFirst_cons_of_pos hn, changeFirst_cons_of_pos hn]
      exact .cons_rearranged hgh (.refl ns)
    · rw [List.find?_cons_of_neg hn] at hc
      rw [changeFirst_cons_of_neg hn, changeFirst_cons_of_neg hn]
      exact .cons_self n (ih hc)

/-- Of two nodes that are there, it does not matter which grows first, if what comes to stand under
one node has different names. -/
theorem grow_comm (hks : descend? ks t = some m) (hls : descend? ls t = some n)
    (hnew : ks = ls → ∀ c ∈ cs, ∀ d ∈ ds, nameOf c ≠ nameOf d) :
    Rearranged NodeLabel.Apart (grow cs ks (grow ds ls t)) (grow ds ls (grow cs ks t)) := by
  induction ks generalizing ls t with
  | nil =>
    cases ls with
    | nil =>
      refine ⟨rfl, ?_⟩
      show Reordered _ (t.children ++ ds ++ cs) (t.children ++ cs ++ ds)
      rw [List.append_assoc, List.append_assoc]
      exact (Reordered.append_comm fun d hd c hc => (hnew rfl c hc d hd).symm).append_left _
    | cons l ls =>
      -- `t` already has the child that grows, so that new children behind it are not found
      obtain ⟨c, hc, _⟩ := descend?_cons_eq_some.1 hls
      have heq : grow cs [] (grow ds (l :: ls) t) = grow ds (l :: ls) (grow cs [] t) := by
        show (⟨t.label, changeFirst l (grow ds ls) t.children ++ cs⟩ : Node)
          = ⟨t.label, changeFirst l (grow ds ls) (t.children ++ cs)⟩
        rw [changeFirst_append hc]
      rw [heq]
      exact .refl _
  | cons k ks ih =>
    obtain ⟨c, hc, hks⟩ := descend?_cons_eq_some.1 hks
    cases ls with
    | nil =>
      have heq : grow cs (k :: ks) (grow ds [] t) = grow ds [] (grow cs (k :: ks) t) := by
        show (⟨t.label, changeFirst k (grow cs ks) (t.children ++ ds)⟩ : Node)
          = ⟨t.label, changeFirst k (grow cs ks) t.children ++ ds⟩
        rw [changeFirst_append hc]
      rw [heq]
      exact .refl _
    | cons l ls =>
      obtain ⟨d, hd, hls⟩ := descend?_cons_eq_some.1 hls
      refine ⟨rfl, ?_⟩
      show Reordered _ (changeFirst k (grow cs ks) (changeFirst l (grow ds ls) t.children))
        (changeFirst l (grow ds ls) (changeFirst k (grow cs ks) t.children))
      by_cases hkl : k = l
      · subst hkl
        cases hc.symm.trans hd
        rw [changeFirst_changeFirst_self (label_grow ds ls),
          changeFirst_changeFirst_self (label_grow cs ks)]
        exact changeFirst_of_find? hc (ih hks hls fun h => hnew (congrArg _ h))
      · rw [changeFirst_comm (label_grow cs ks) (label_grow ds ls) hkl]
        exact .refl _

end Node

end YangSchema
