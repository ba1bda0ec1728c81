import YangSchema.Proofs.CopiedLabels
import YangSchema.Proofs.Hygiene
import YangSchema.Proofs.InPlace

/-!
# What a `uses` touches

Everything that a `uses` brings carries its mark, and so does what is copied while its grouping is
expanded, refined and augmented (`Expansion.imprint_isAdded`). As instantiating in place adds to the
arena just what copying gives, a `uses` touches nothing but what it adds
(`Instantiator.uses_touches_only_what_it_adds`).
-/

namespace YangSchema

namespace Expansion

/-- A node lives in the module and a `uses` has brought it. -/
def IsAdded (e : Expansion) (l : NodeLabel) : Prop := l.module = e.module ∧ l.addedByUses = true

/-- Whatever a `uses` becomes, and whatever is copied as its content, carries its mark. -/
theorem imprint_isAdded (e : Expansion) : e.Imprint (· = true) e.IsAdded where
  uses := rfl
  copied h _ _ _ := ⟨rfl, h⟩
  conditions _ h := h
  augmenting h := h

end Expansion

namespace Instantiator

open Arena (Appends Holds)
open Expansion (IsAdded)
open Layout (forestCells node slot)
open Relation (ReflTransGen)

/-! ## The frame of a `uses` -/

/-- Adding under a node leaves all others as they are that do not have it below them. -/
theorem holds_of_appends {A B : Arena} {q r : Nat} {s : Layout} {ts : List Layout}
    (h : Appends A B q ts) (hs : A.Holds r s) (hq : q ∉ s.slots) : B.Holds r s where
  has := hs.has.congr fun i hi =>
    h.frame i (hs.has.lt hi) fun heq => hq (Layout.map_fst_cells r s ▸ heq ▸ hi)
  distinct := hs.distinct

/-- From every state, a `uses` under a node of the arena ends with the nodes that copying it gives,
or with an error of the sources; it never panics and always comes to an end. Where it succeeds,
scope and stack are as before, and so is every node that was there, the parent apart. The parent has
new children behind those that it had, and these are the list that is read from there on. Whatever
is reached from a new child is new, lives in the module and carries the mark of a `uses`. So any
other node, with all that stands below it, is as it was. -/
theorem uses_touches_only_what_it_adds (e : Expansion) (depth : Nat) (source : DeclaredSource)
    (addedByUses : Bool) {d : Declaration} (huses : IsUses d) {w : Instantiator} {parent : Nat}
    (hparent : parent < w.tree.length) :
    (∀ fault, instantiate e (expandGrouping e depth) source addedByUses parent d w = .error fault →
      ∃ error, fault = .error error)
    ∧ ∀ w', instantiate e (expandGrouping e depth) source addedByUses parent d w = .ok ((), w') →
      w'.scope = w.scope ∧ w'.usesStack = w.usesStack
      ∧ (∀ i < w.tree.length, i ≠ parent → w'.tree[i]? = w.tree[i]?)
      ∧ (∀ r s, w.tree.Holds r s → parent ∉ s.slots → w'.tree.Holds r s)
      ∧ ∃ c added, w.tree[parent]? = some c
        ∧ w'.tree[parent]? = some { c with children := c.children ++ added }
        ∧ childrenFrom parent c.children.length w' = .ok (added, w')
        ∧ (∀ i ∈ added, ∀ j, ReflTransGen w'.tree.IsChild i j → w.tree.length ≤ j
          ∧ ∃ n, w'.tree[j]? = some n ∧ n.label.module = e.module ∧ n.label.addedByUses = true)
        ∧ ∃ nodes ts, Expansion.copy e (e.ofGrouping depth w.usesStack) source addedByUses
            (c.label.binding = .builtin .type) w.scope d w.types = .ok (nodes, w'.types)
          ∧ ts.map node = nodes ∧ ts.map slot = added ∧ w'.tree.Has (forestCells parent ts) := by
  have hc := List.getElem?_eq_getElem hparent
  have hfollows := instantiate_follows e depth source addedByUses d hc
  generalize w.tree[parent] = c at hc hfollows
  cases hcopy : Expansion.copy e (e.ofGrouping depth w.usesStack) source addedByUses
      (c.label.binding = .builtin .type) w.scope d w.types with
  | error error =>
    have hrun := hfollows.fails error hcopy
    rw [hrun]
    exact ⟨fun fault h => ⟨error, (Except.error.inj h).symm⟩, fun w' h => nomatch h⟩
  | ok r =>
    obtain ⟨nodes, types⟩ := r
    obtain ⟨_, B, hrun, ts, hadd, hnodes⟩ := hfollows.follows nodes types hcopy
    rw [hrun]
    constructor
    · intro fault h
      cases h
    · intro w' h
      cases h
      obtain ⟨c', hc', hB⟩ := hadd.parent
      cases hc.symm.trans hc'
      have hP := Expansion.imprint_isAdded e
      have hmarked := hP.all_copy (fun _ _ _ => hP.all_ofGrouping) d (.inr huses) hcopy
      refine ⟨rfl, rfl, hadd.frame, fun r s => holds_of_appends hadd, c, ts.map slot, hc, hB,
        childrenFrom_eq hB rfl, fun i hi j hpath => ?_, nodes, ts, hcopy, hnodes, rfl, hadd.has⟩
      obtain ⟨hnew, n, hn, hlabel⟩ := hadd.of_reaches hi hpath
      obtain ⟨x, hx, hlabel⟩ := Tree.mem_forestPreorder.1 (hnodes ▸ hlabel)
      exact ⟨hnew, n, hn, hmarked x hx n.label hlabel⟩

/-- A module with a grouping that uses another one and is used twice, once with adjustments. -/
def adjustedUses : List Source :=
  [.bareModule "a" [
      .bare "include" "s" [],
      .bare "grouping" "h" [.bare "leaf" "x" [.bare "type" "string" []]],
      .bare "grouping" "g" [.bare "container" "c" [.bare "uses" "h" []]],
      .bare "container" "d" [.bare "uses" "g" []],
      .bare "container" "e" [.bare "uses" "g" [
        .bare "refine" "c" [.bare "description" "adjusted" []],
        .bare "augment" "c" [.bare "leaf" "y" [.bare "type" "string" []]]]]],
    ⟨"s", .bare "submodule" "s" [.bare "belongs-to" "a" [.bare "prefix" "a" []]]⟩]

/-- How it is instantiated. -/
def adjustedExpansion : Expansion := ⟨.ofLinkage Expansion.twinLinkage adjustedUses, ⟨"a", none⟩⟩

/-- The adjusted `uses` and its source, with the state in which the other one has been expanded and
the container around this one has been added in slot 5. -/
def adjustedUse? : Option (DeclaredSource × Declaration × Instantiator) := do
  let source ← (adjustedExpansion.model.family adjustedExpansion.module).head?
  let plain ← Definition.among? .container "d" source.root
  let adjusted ← Definition.among? .container "e" source.root
  let uses ← Definition.among? .uses "g" adjusted
  let label := NodeLabel.ofDeclared adjustedExpansion.module source.id false
  let before : Action Nat := do
    instantiate adjustedExpansion (expandGrouping adjustedExpansion 2) source false 0 plain
    add 0 (label adjusted.label)
  let (_, w) ← (before (start adjustedExpansion (label source.root.label))).toOption
  return (source, uses, w)

/-- The adjusted `uses` leaves all cells as they are that the other one has filled. -/
theorem uses_touches_only_what_it_adds_adjusted : ∃ source d w w' c added,
    IsUses d ∧ w.tree.length = 6
      ∧ instantiate adjustedExpansion (expandGrouping adjustedExpansion 2) source false 5 d w
        = .ok ((), w')
      ∧ w'.tree.length = 12 ∧ (∀ i < w.tree.length, i ≠ 5 → w'.tree[i]? = w.tree[i]?)
      ∧ w.tree[5]? = some c ∧ w'.tree[5]? = some { c with children := c.children ++ added }
      ∧ added = [6]
      ∧ ∀ i ∈ added, ∀ j, ReflTransGen w'.tree.IsChild i j → w.tree.length ≤ j
        ∧ ∃ n, w'.tree[j]? = some n ∧ n.label.module = adjustedExpansion.module
          ∧ n.label.addedByUses = true := by
  have h : (do
      let (source, d, w) ← adjustedUse?
      let (_, w') ← (instantiate adjustedExpansion (expandGrouping adjustedExpansion 2) source
        false 5 d w).toOption
      let c ← w.tree[5]?
      let c' ← w'.tree[5]?
      return (Declaration.is d .uses, w.tree.length, w'.tree.length, c.children, c'.children))
        = some (true, 6, 12, [], [6]) := by decide +kernel
  obtain ⟨⟨source, d, w⟩, _, h⟩ := Option.bind_eq_some_iff.1 h
  obtain ⟨⟨_, w'⟩, hrun, h⟩ := Option.bind_eq_some_iff.1 h
  obtain ⟨c, hc, h⟩ := Option.bind_eq_some_iff.1 h
  obtain ⟨c', hc', h⟩ := Option.bind_eq_some_iff.1 h
  obtain ⟨hkind, h⟩ := Prod.mk.inj (Option.some.inj h)
  obtain ⟨hlength, h⟩ := Prod.mk.inj h
  obtain ⟨hlength', h⟩ := Prod.mk.inj h
  obtain ⟨hchildren, hchildren'⟩ := Prod.mk.inj h
  have huses : IsUses d := Declaration.is_iff.1 hkind
  have hrun : instantiate adjustedExpansion (expandGrouping adjustedExpansion 2) source false 5 d w
      = .ok ((), w') := by
    revert hrun
    cases instantiate adjustedExpansion (expandGrouping adjustedExpansion 2) source false 5 d w with
    | error fault => exact fun hrun => nomatch hrun
    | ok r => exact fun hrun => congrArg Except.ok (Option.some.inj hrun)
  obtain ⟨_, hsuccess⟩ := uses_touches_only_what_it_adds adjustedExpansion 2 source false huses
    (show 5 < w.tree.length by omega)
  obtain ⟨_, _, hframe, _, c₀, added, hc₀, hafter, _, hadded, _⟩ := hsuccess w' hrun
  cases hc.symm.trans hc₀
  cases hc'.symm.trans hafter
  change c.children ++ added = [6] at hchildren'
  rw [hchildren, List.nil_append] at hchildren'
  exact ⟨source, d, w, w', c, added, huses, hlength, hrun, hlength', hframe, hc, hafter,
    hchildren', hadded⟩

end Instantiator

end YangSchema
