/-!
# Labelled rooted trees

Statements, bound statements and schema nodes are all trees whose nodes carry a label and whose
children are ordered. This module holds what they share:

* `Tree.size`, `Tree.preorder`: how many nodes there are, and their labels with every parent
  before its children;
* `Tree.subtree?`, `Tree.replace`: reading and writing at an *address*, the list of child
  positions that leads down from the root;
* `Tree.indexed`: relabelling with the place of each node in preorder;
* `Tree.rows`: the flat table of a tree, one row per node in preorder, in which parent and
  children are named by their places.
-/

namespace YangSchema

/-- A node with its label and its ordered children. -/
structure Tree (α : Type) where
  label : α
  children : List (Tree α)
  deriving Repr, Inhabited

namespace Tree

variable {α β : Type}

/-- A node without children. -/
def leaf (a : α) : Tree α := ⟨a, []⟩

/-! ## Counting and listing -/

mutual

/-- The number of nodes. -/
def size : Tree α → Nat
  | ⟨_, cs⟩ => 1 + forestSize cs

/-- The number of nodes of a list of trees. -/
def forestSize : List (Tree α) → Nat
  | [] => 0
  | t :: ts => t.size + forestSize ts

end

mutual

/-- The labels, every node before its children and these from left to right. -/
def preorder : Tree α → List α
  | ⟨a, cs⟩ => a :: forestPreorder cs

/-- The labels of a list of trees, one tree after the other. -/
def forestPreorder : List (Tree α) → List α
  | [] => []
  | t :: ts => t.preorder ++ forestPreorder ts

end

mutual

theorem length_preorder : ∀ t : Tree α, t.preorder.length = t.size
  | ⟨_, cs⟩ => by
    rw [preorder, size, List.length_cons, length_forestPreorder cs, Nat.add_comm]

theorem length_forestPreorder : ∀ ts : List (Tree α), (forestPreorder ts).length = forestSize ts
  | [] => rfl
  | t :: ts => by
    rw [forestPreorder, forestSize, List.length_append, length_preorder t,
      length_forestPreorder ts]

end

theorem size_pos : ∀ t : Tree α, 0 < t.size
  | ⟨_, cs⟩ => by rw [size]; omega

mutual

/-- The subtrees in preorder, the tree itself first. -/
def subtrees : Tree α → List (Tree α)
  | ⟨a, cs⟩ => ⟨a, cs⟩ :: forestSubtrees cs

/-- The subtrees of a list of trees in preorder. -/
def forestSubtrees : List (Tree α) → List (Tree α)
  | [] => []
  | t :: ts => t.subtrees ++ forestSubtrees ts

end

/-! ## Relabelling -/

mutual

/-- Relabels every node. -/
def map (f : α → β) : Tree α → Tree β
  | ⟨a, cs⟩ => ⟨f a, mapForest f cs⟩

/-- Relabels every node of a list of trees. -/
def mapForest (f : α → β) : List (Tree α) → List (Tree β)
  | [] => []
  | t :: ts => t.map f :: mapForest f ts

end

mutual

/-- Relabels every node, given its place in preorder when the root has place `start`. -/
def indexed (f : Nat → α → β) (start : Nat) : Tree α → Tree β
  | ⟨a, cs⟩ => ⟨f start a, indexedForest f (start + 1) cs⟩

/-- Relabels a list of trees whose first node has place `start`. -/
def indexedForest (f : Nat → α → β) (start : Nat) : List (Tree α) → List (Tree β)
  | [] => []
  | t :: ts => t.indexed f start :: indexedForest f (start + t.size) ts

end

/-! ## Addresses -/

/-- The subtree at an address, if the address stays inside the tree. -/
def subtree? (t : Tree α) : List Nat → Option (Tree α)
  | [] => some t
  | i :: rest => t.children[i]?.bind fun c => c.subtree? rest

/-- Puts `u` in place of the subtree at an address; an address outside the tree changes nothing. -/
def replace (u : Tree α) : List Nat → Tree α → Tree α
  | [], _ => u
  | i :: rest, t => ⟨t.label, t.children.modify i (replace u rest)⟩

/-- Takes out the subtree at an address; the root cannot be taken out. -/
def remove : List Nat → Tree α → Tree α
  | [], t => t
  | [i], t => ⟨t.label, t.children.eraseIdx i⟩
  | i :: j :: rest, t => ⟨t.label, t.children.modify i (remove (j :: rest))⟩

@[simp] theorem subtree?_nil (t : Tree α) : t.subtree? [] = some t := rfl

@[simp] theorem subtree?_cons (t : Tree α) (i : Nat) (rest : List Nat) :
    t.subtree? (i :: rest) = t.children[i]?.bind fun c => c.subtree? rest := rfl

/-- What was put at an address inside the tree is found there. -/
theorem subtree?_replace_self (u : Tree α) (p : List Nat) (t : Tree α)
    (h : (t.subtree? p).isSome) : (replace u p t).subtree? p = some u := by
  induction p generalizing t with
  | nil => rfl
  | cons i rest ih =>
    rw [subtree?_cons] at h
    cases hc : t.children[i]? with
    | none => rw [hc] at h; cases h
    | some c =>
      rw [hc] at h
      simp only [replace, subtree?_cons, List.getElem?_modify_eq, hc]
      exact ih c h

/-- Adds a tree behind the children of the root. -/
def addChild (t : Tree α) (c : Tree α) : Tree α := ⟨t.label, t.children ++ [c]⟩

/-- Adds trees behind the children of the root. -/
def addChildren (t : Tree α) (cs : List (Tree α)) : Tree α := ⟨t.label, t.children ++ cs⟩

/-- Takes out the children of the root that satisfy a condition. -/
def removeChildren (p : Tree α → Bool) (t : Tree α) : Tree α :=
  ⟨t.label, t.children.filter (!p ·)⟩

/-- The subtree at an address in a list of trees; the first number selects the tree. -/
def forestSubtree? (ts : List (Tree α)) : List Nat → Option (Tree α)
  | [] => none
  | i :: rest => ts[i]?.bind fun t => t.subtree? rest

/-- Puts `u` in place of the subtree at an address in a list of trees. -/
def forestReplace (u : Tree α) (ts : List (Tree α)) : List Nat → List (Tree α)
  | [] => ts
  | i :: rest => ts.modify i (replace u rest)

/-! ## The flat table -/

/-- One node of a flattened tree: its own place, the places of its parent and children, its
label. -/
structure Row (α : Type) where
  id : Nat
  parent : Option Nat
  children : List Nat
  label : α
  deriving Repr, Inhabited

/-- The places of the roots of a list of trees whose first node has place `start`. -/
def rootPlaces (start : Nat) : List (Tree α) → List Nat
  | [] => []
  | t :: ts => start :: rootPlaces (start + t.size) ts

mutual

/-- The table of a tree whose root has place `start` and parent `parent`. -/
def rowsFrom (start : Nat) (parent : Option Nat) : Tree α → List (Row α)
  | ⟨a, cs⟩ =>
    ⟨start, parent, rootPlaces (start + 1) cs, a⟩ :: forestRowsFrom (start + 1) (some start) cs

/-- The table of a list of trees with a common parent. -/
def forestRowsFrom (start : Nat) (parent : Option Nat) : List (Tree α) → List (Row α)
  | [] => []
  | t :: ts => t.rowsFrom start parent ++ forestRowsFrom (start + t.size) parent ts

end

/-- The table of a tree: one row per node in preorder, the root first and at place 0. -/
def rows (t : Tree α) : List (Row α) := t.rowsFrom 0 none

end Tree

end YangSchema
