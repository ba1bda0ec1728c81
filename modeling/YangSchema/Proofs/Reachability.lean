import Mathlib.Data.Set.Finite.Basic
import Mathlib.Logic.Relation
import Mathlib.Order.WellFoundedSet
import YangSchema.Digraph

/-!
# Reachability and cycles

`Digraph.Edge next nodes` are the edges of a graph that end at one of its nodes. The computed sets
are what they are meant to be: a depth-first search leaves every node (`mem_leaders_iff`), a closure
holds the nodes to which edges lead (`mem_closure_iff`), and there is a first component with a
cycle exactly if there is a cycle (`firstCycle?_eq_none_iff`).

A graph without cycles has, among any of its nodes, one that leads to no other of them
(`exists_sink`).
-/

namespace YangSchema

namespace Digraph

open Relation

variable {α : Type} {next : α → List α} {nodes : List α}

/-- There is an edge from `a` to the node `b`. -/
def Edge (next : α → List α) (nodes : List α) (a b : α) : Prop := b ∈ next a ∧ b ∈ nodes

/-! ## Searches -/

/-- What a search has met are different nodes, and so is what it has left. -/
structure Search.Within (nodes : List α) (s : Search α) : Prop where
  nodup : s.met.Nodup
  met : s.met ⊆ nodes
  left : s.left ⊆ nodes

/-- A search goes on from `s` to `t`: it forgets nothing, and leaves what it newly meets. -/
structure Search.LeadsTo (nodes : List α) (s t : Search α) : Prop where
  within : t.Within nodes
  met : s.met <:+ t.met
  left : s.left ⊆ t.left
  leaves : ∀ v ∈ t.met, v ∈ s.met ∨ v ∈ t.left

namespace Search

theorem LeadsTo.refl {s : Search α} (h : s.Within nodes) : s.LeadsTo nodes s :=
  ⟨h, List.suffix_rfl, List.Subset.refl _, fun _ hv => .inl hv⟩

theorem LeadsTo.trans {s t u : Search α} (hst : s.LeadsTo nodes t) (htu : t.LeadsTo nodes u) :
    s.LeadsTo nodes u where
  within := htu.within
  met := hst.met.trans htu.met
  left := List.Subset.trans hst.left htu.left
  leaves v hv := by
    rcases htu.leaves v hv with h | h
    · exact (hst.leaves v h).imp id fun hleft => htu.left hleft
    · exact .inr h

/-- Where as many nodes have been met as there are, every node has been met. -/
theorem Within.mem_met {s : Search α} (h : s.Within nodes) (hlen : nodes.length ≤ s.met.length)
    {v : α} (hv : v ∈ nodes) : v ∈ s.met :=
  ((h.nodup.subperm h.met).perm_of_length_le hlen).mem_iff.2 hv

end Search

/-- A fold of steps that each lead on and meet their node leads on and meets all of them. -/
theorem foldl_leadsTo {step : Search α → α → Search α} (bound : Nat)
    (hstep : ∀ s v, s.Within nodes → v ∈ nodes → bound ≤ s.met.length →
      s.LeadsTo nodes (step s v) ∧ v ∈ (step s v).met)
    (vs : List α) (hvs : vs ⊆ nodes) (s : Search α) (hs : s.Within nodes)
    (hlen : bound ≤ s.met.length) :
    s.LeadsTo nodes (vs.foldl step s) ∧ ∀ v ∈ vs, v ∈ (vs.foldl step s).met := by
  induction vs generalizing s with
  | nil => exact ⟨.refl hs, fun v hv => absurd hv List.not_mem_nil⟩
  | cons v vs ih =>
    rw [List.cons_subset] at hvs
    obtain ⟨hlead, hmet⟩ := hstep s v hs hvs.1 hlen
    obtain ⟨hrest, hall⟩ := ih hvs.2 (step s v) hlead.within (hlen.trans hlead.met.length_le)
    refine ⟨hlead.trans hrest, fun u hu => ?_⟩
    rcases List.mem_cons.1 hu with rfl | hu
    · exact hrest.met.subset hmet
    · exact hall u hu

variable [DecidableEq α]

/-- A search with room for all nodes that have not been met meets its node and leaves what it
meets. -/
theorem search_leadsTo (hnext : ∀ v, next v ⊆ nodes) (depth : Nat) (s : Search α) (v : α)
    (hs : s.Within nodes) (hv : v ∈ nodes) (hlen : nodes.length - depth ≤ s.met.length) :
    s.LeadsTo nodes (search next depth s v) ∧ v ∈ (search next depth s v).met := by
  induction depth generalizing s v with
  | zero => exact ⟨.refl hs, hs.mem_met hlen hv⟩
  | succ depth ih =>
    rw [search]
    split
    · rename_i hmet
      exact ⟨.refl hs, hmet⟩
    · rename_i hmet
      -- the search below starts with `v` met, which makes up for the smaller depth
      have hopen : Search.Within nodes ⟨v :: s.met, s.left⟩ :=
        ⟨List.nodup_cons.2 ⟨hmet, hs.nodup⟩, List.cons_subset.2 ⟨hv, hs.met⟩, hs.left⟩
      have hroom : nodes.length - depth ≤ (v :: s.met).length := by
        rw [List.length_cons]
        omega
      obtain ⟨hlead, _⟩ := foldl_leadsTo _ (fun s v => ih s v) (next v) (hnext v) _ hopen hroom
      have hmem : v ∈ ((next v).foldl (search next depth) ⟨v :: s.met, s.left⟩).met :=
        hlead.met.subset List.mem_cons_self
      refine ⟨⟨⟨hlead.within.nodup, hlead.within.met, ?_⟩, ?_, ?_, ?_⟩, hmem⟩
      · exact List.cons_subset.2 ⟨hv, hlead.within.left⟩
      · exact (List.suffix_cons v s.met).trans hlead.met
      · exact List.Subset.trans hlead.left (List.subset_cons_self _ _)
      · intro u hu
        rcases hlead.leaves u hu with h | h
        · rcases List.mem_cons.1 h with rfl | h
          · exact .inr List.mem_cons_self
          · exact .inl h
        · exact .inr (List.mem_cons_of_mem v h)

/-- Every node is the leader of a component at some time. -/
theorem mem_leaders_iff {v : α} : v ∈ leaders nodes next ↔ v ∈ nodes := by
  have hprevious : ∀ v, (nodes.filter fun u => v ∈ next u) ⊆ nodes :=
    fun _ => List.filter_subset_self _
  have hnil : Search.Within nodes (⟨[], []⟩ : Search α) :=
    ⟨List.nodup_nil, List.nil_subset _, List.nil_subset _⟩
  obtain ⟨hlead, hall⟩ := foldl_leadsTo (nodes.length - nodes.length)
    (search_leadsTo hprevious nodes.length) nodes (List.Subset.refl _) _ hnil (by omega)
  constructor
  · exact fun h => hlead.within.left h
  · intro h
    exact (hlead.leaves v (hall v h)).resolve_left List.not_mem_nil

/-! ## Closures -/

/-- A path that starts at pending nodes either meets `w` last or comes from what is pending once
`w` has been taken out. -/
theorem reached_after_take {unseen pending : List α} {w p v : α} (hp : p ∈ pending)
    (hunseen : p ∈ unseen) (path : ReflTransGen (Edge next unseen) p v) :
    v = w ∨ ∃ q ∈ next w ++ pending, q ∈ unseen.erase w
      ∧ ReflTransGen (Edge next (unseen.erase w)) q v := by
  induction path with
  | refl =>
    by_cases h : p = w
    · exact .inl h
    · exact .inr ⟨p, List.mem_append_right _ hp, (List.mem_erase_of_ne h).2 hunseen, .refl⟩
  | @tail u v _ edge ih =>
    by_cases h : v = w
    · exact .inl h
    · have hv : v ∈ unseen.erase w := (List.mem_erase_of_ne h).2 edge.2
      rcases ih with rfl | ⟨q, hq, hmem, path⟩
      · exact .inr ⟨v, List.mem_append_left _ edge.1, hv, .refl⟩
      · exact .inr ⟨q, hq, hmem, path.tail ⟨edge.1, hv⟩⟩

/-- A closure holds the nodes to which a path of unseen nodes leads from a pending one. -/
theorem mem_closure_iff {unseen pending : List α} {v : α} :
    v ∈ closure next unseen pending ↔
      ∃ p ∈ pending, p ∈ unseen ∧ ReflTransGen (Edge next unseen) p v := by
  fun_induction closure next unseen pending with
  | case1 unseen pending hnone =>
    refine ⟨fun h => absurd h List.not_mem_nil, ?_⟩
    rintro ⟨p, hp, hmem, _⟩
    exact absurd hmem (by simpa using List.find?_eq_none.1 hnone p hp)
  | case2 unseen pending w hw ih =>
    have hpending : w ∈ pending := List.mem_of_find?_eq_some hw
    have hunseen : w ∈ unseen := by simpa using List.find?_some hw
    rw [List.mem_cons, ih]
    constructor
    · rintro (rfl | ⟨q, hq, hmem, path⟩)
      · exact ⟨v, hpending, hunseen, .refl⟩
      · have hq' := List.mem_of_mem_erase hmem
        -- fewer unseen nodes allow fewer edges, so the path stays one
        have path' := ReflTransGen.mono (p := Edge next unseen)
          (fun _ _ edge => ⟨edge.1, List.mem_of_mem_erase edge.2⟩) q v path
        rcases List.mem_append.1 hq with hq | hq
        · exact ⟨w, hpending, hunseen, .head ⟨hq, hq'⟩ path'⟩
        · exact ⟨q, hq, hq', path'⟩
    · rintro ⟨p, hp, hmem, path⟩
      exact reached_after_take hp hmem path

theorem mem_reachable_iff {v w : α} :
    w ∈ reachable nodes next v ↔ v ∈ nodes ∧ ReflTransGen (Edge next nodes) v w := by
  rw [reachable, mem_closure_iff]
  simp

theorem mem_component_iff {v w : α} :
    w ∈ component nodes next v ↔
      (v ∈ nodes ∧ ReflTransGen (Edge next nodes) v w)
        ∧ (w ∈ nodes ∧ ReflTransGen (Edge next nodes) w v) := by
  unfold component
  rw [List.mem_filter, Bool.and_eq_true, decide_eq_true_iff, decide_eq_true_iff,
    mem_reachable_iff, mem_reachable_iff]
  constructor
  · rintro ⟨_, h⟩
    exact h
  · rintro ⟨h, h'⟩
    exact ⟨h'.1, h, h'⟩

/-! ## Cycles -/

/-- A node lies on a cycle exactly if it leads to itself at once or its component has another
node. -/
theorem transGen_self_iff (hnodes : nodes.Nodup) {v : α} (hv : v ∈ nodes) :
    TransGen (Edge next nodes) v v ↔ v ∈ next v ∨ 1 < (component nodes next v).length := by
  have hself : v ∈ component nodes next v := mem_component_iff.2 ⟨⟨hv, .refl⟩, ⟨hv, .refl⟩⟩
  have hcomponent : (component nodes next v).Nodup := hnodes.filter _
  constructor
  · intro cycle
    obtain ⟨w, edge, path⟩ := TransGen.head'_iff.1 cycle
    by_cases h : w = v
    · exact .inl (h ▸ edge.1)
    · right
      have hw : w ∈ component nodes next v :=
        mem_component_iff.2 ⟨⟨hv, .single edge⟩, ⟨edge.2, path⟩⟩
      -- the cycle passes another node, which is then in the component, too
      have hpair : [w, v] ⊆ component nodes next v := by
        rw [List.cons_subset, List.cons_subset]
        exact ⟨hw, hself, List.nil_subset _⟩
      have hnodup : [w, v].Nodup := by simpa using h
      exact (hnodup.subperm hpair).length_le
  · rintro (h | h)
    · exact .single ⟨h, hv⟩
    -- a component with two nodes has one other than `v`; there and back is a cycle
    · obtain ⟨w, hw, hne⟩ : ∃ w ∈ component nodes next v, w ≠ v := by
        by_contra hall
        push Not at hall
        have hsub : component nodes next v ⊆ [v] := fun w hw => by simpa using hall w hw
        have hlen := (hcomponent.subperm hsub).length_le
        rw [List.length_singleton] at hlen
        omega
      obtain ⟨⟨_, there⟩, _, back⟩ := mem_component_iff.1 hw
      have path : TransGen (Edge next nodes) v w :=
        (reflTransGen_iff_eq_or_transGen.1 there).resolve_left hne
      exact path.trans_left back

/-- No component with a cycle is found exactly if there is no cycle. -/
theorem firstCycle?_eq_none_iff (hnodes : nodes.Nodup) :
    firstCycle? nodes next = none ↔ ∀ v ∈ nodes, ¬ TransGen (Edge next nodes) v v := by
  rw [firstCycle?, Option.map_eq_none_iff, List.find?_eq_none]
  constructor
  · intro h v hv cycle
    have hnot := h v (mem_leaders_iff.2 hv)
    rw [Bool.or_eq_true, decide_eq_true_iff, decide_eq_true_iff] at hnot
    exact hnot ((transGen_self_iff hnodes hv).1 cycle)
  · intro h v hv
    have hv' : v ∈ nodes := mem_leaders_iff.1 hv
    rw [Bool.or_eq_true, decide_eq_true_iff, decide_eq_true_iff]
    exact fun hcycle => h v hv' ((transGen_self_iff hnodes hv').2 hcycle)

end Digraph

/-- Without cycles, every list of things that is not empty has one that leads to none of them. -/
theorem exists_sink {α : Type} {r : α → α → Prop} (acyclic : ∀ a, ¬ Relation.TransGen r a a)
    {as : List α} (hne : as ≠ []) : ∃ a ∈ as, ∀ b ∈ as, ¬ r a b := by
  by_contra hall
  push Not at hall
  let below (a b : {a // a ∈ as}) : Prop := Relation.TransGen r b.1 a.1
  have : IsTrans {a // a ∈ as} below := ⟨fun _ _ _ hab hbc => Relation.TransGen.trans hbc hab⟩
  have : Std.Irrefl below := ⟨fun a => acyclic a.1⟩
  have : Finite {a // a ∈ as} := as.finite_toSet.to_subtype
  have wf : WellFounded below := Finite.wellFounded_of_trans_of_irrefl below
  obtain ⟨a, ha⟩ := List.exists_mem_of_ne_nil as hne
  obtain ⟨least, _, hleast⟩ := wf.has_min Set.univ ⟨⟨a, ha⟩, trivial⟩
  obtain ⟨b, hb, hrel⟩ := hall least.1 least.2
  exact hleast ⟨b, hb⟩ trivial (.single hrel)

end YangSchema
