/-!
# Finite directed graphs

A graph is a list of nodes with a function to the list of successors of each. This module finds the
nodes reachable from given ones (`closure`), the strongly connected component of a node
(`component`), and the first component that holds a cycle (`firstCycle?`).

Which cycle is the first matters when there are several, because a message names one. Components
are taken in the order of their *leaders*: a depth-first search against the direction of the edges
starts at every node in turn and goes to predecessors in the order in which the edges were added;
leaders are the nodes in the reverse of the order in which this search leaves them.
-/

namespace YangSchema

namespace Digraph

variable {α : Type} [DecidableEq α]

/-- The nodes among `unseen` that are in `pending` or reachable from there through such nodes. -/
def closure (next : α → List α) (unseen pending : List α) : List α :=
  match _h : pending.find? (· ∈ unseen) with
  | none => []
  | some v => v :: closure next (unseen.erase v) (next v ++ pending)
termination_by unseen.length
decreasing_by
  have hv : v ∈ unseen := by simpa using List.find?_some _h
  have := List.length_erase_of_mem hv
  have := List.length_pos_of_mem hv
  omega

/-- The nodes reachable from `v`, itself included. -/
def reachable (nodes : List α) (next : α → List α) (v : α) : List α := closure next nodes [v]

/-- The nodes that reach `v` and are reachable from it, in the order of `nodes`. -/
def component (nodes : List α) (next : α → List α) (v : α) : List α :=
  let ahead := reachable nodes next v
  nodes.filter fun w => w ∈ ahead && v ∈ reachable nodes next w

/-- What a depth-first search has met and left so far, latest first. -/
structure Search (α : Type) where
  met : List α
  left : List α

/-- Searches from `v` unless it has been met; at most `depth` nodes are open at once. -/
def search (next : α → List α) : (depth : Nat) → Search α → α → Search α
  | 0, s, _ => s
  | depth + 1, s, v =>
    if v ∈ s.met then s
    else
      let s := (next v).foldl (search next depth) ⟨v :: s.met, s.left⟩
      ⟨s.met, v :: s.left⟩

/-- The nodes in the order in which components are taken. -/
def leaders (nodes : List α) (next : α → List α) : List α :=
  let previous := fun v => nodes.filter fun u => v ∈ next u
  (nodes.foldl (search previous nodes.length) ⟨[], []⟩).left

/-- The first component with a cycle: one of several nodes, or of one that is its own successor. -/
def firstCycle? (nodes : List α) (next : α → List α) : Option (List α) :=
  ((leaders nodes next).find? fun v =>
    v ∈ next v || 1 < (component nodes next v).length).map (component nodes next)

example : firstCycle? [0, 1, 2, 3] (fun v => if v = 0 then [1] else if v = 1 then [2, 0] else [])
    = some [0, 1] := by decide +kernel

end Digraph

end YangSchema
