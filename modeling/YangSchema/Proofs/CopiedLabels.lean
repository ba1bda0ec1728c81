import YangSchema.Proofs.Addresses
import YangSchema.Proofs.Instantiated

/-!
# What copying leaves on labels

A condition that labels meet when they are copied into a module, and that they still meet when
conditions are added to them or they are marked as brought by an `augment`, is an *imprint* of
copying (`Expansion.Imprint`). All nodes that copying gives have it: those that are copied, those
that a `uses` brings, and those that its `refine` and `augment` substatements add
(`Expansion.Imprint.all_copy`).
-/

namespace YangSchema

namespace Expansion

variable {e : Expansion} {grouping : Site → Building (List Node)} {s : DeclaredSource}
  {source : SourceId} {addedByUses isMember : Bool} {scope : Scope} {d property : Declaration}
  {n n' : Node} {nodes nodes' : List Node} {t u : TypeTable} {marks : Bool → Prop}
  {P : NodeLabel → Prop}

/-- A condition that every label meets that is copied into the module, where `marks` says whether
this has to be done by a `uses`; later marks do not change that. -/
structure Imprint (e : Expansion) (marks : Bool → Prop) (P : NodeLabel → Prop) : Prop where
  uses : marks true
  copied {addedByUses : Bool} (h : marks addedByUses) (source : SourceId) (d : Declared)
    (type : Option EffectiveType) :
    P { NodeLabel.ofDeclared e.module source addedByUses d with type := type }
  conditions {l : NodeLabel} (conditions : List Condition) (h : P l) :
    P { l with conditions := conditions }
  augmenting {l : NodeLabel} (h : P l) : P { l with augmenting := true }

namespace Imprint

variable (hP : Imprint e marks P)

include hP

theorem all_ofDeclaration (source : SourceId) (d : Declaration) :
    (Node.ofDeclaration e.module source true d).All P :=
  Tree.All.map (P := fun _ => True) (fun _ _ => trivial) fun d _ => hP.copied hP.uses source d none

theorem all_addConditions {conditions : List Condition} (h : n.All P) :
    (n.addConditions conditions).All P := by
  obtain ⟨hlabel, hchildren⟩ := Tree.all_iff.1 h
  exact Tree.all_iff.2 ⟨hP.conditions _ hlabel, hchildren⟩

theorem all_markAugmenting (h : n.All P) : (Node.markAugmenting n).All P :=
  h.map fun _ hl => hP.augmenting hl

theorem all_refineProperty (hn : n.All P) (h : e.refineProperty source n property = .ok n') :
    n'.All P := by
  obtain ⟨p, rfl⟩ := room_of_refineProperty h
  exact hn.removeChildren.addChildren fun c hc =>
    List.mem_singleton.1 hc ▸ hP.all_ofDeclaration source property

theorem all_refine (hnodes : ∀ n ∈ nodes, n.All P) (h : e.refine source nodes d = .ok nodes') :
    ∀ n ∈ nodes', n.All P := by
  obtain ⟨address, target, refined, htarget, hrefined, rfl⟩ := steps_of_refine h
  refine .forestReplace hnodes ?_
  exact Result.foldlM_invariant (P := fun n => n.All P)
    (fun _ _ _ hn hstep => hP.all_refineProperty hn hstep) (.forestSubtree? hnodes htarget)
    hrefined

omit hP in
/-- The declarations of a list give nodes that meet a condition if each of them does. -/
theorem all_copyAll {p : Binding → Bool} {ds : List Declaration}
    (hd : ∀ d ∈ ds, ∀ isMember scope t r,
      copy e grouping s addedByUses isMember scope d t = .ok r → ∀ n ∈ r.1, n.All P)
    (h : copyAll e grouping s addedByUses isMember scope p ds t = .ok (nodes, u)) :
    ∀ n ∈ nodes, n.All P := by
  intro n hn
  obtain ⟨d, hmem, _, v, w, part, hcopy, hn⟩ := exists_copy_of_mem h hn
  exact hd d hmem isMember scope v _ hcopy n hn

theorem all_augmentOne {a : Declaration} (hnodes : ∀ n ∈ nodes, n.All P)
    (hchildren : ∀ c ∈ a.children, ∀ isMember scope t r,
      copy e grouping s true isMember scope c t = .ok r → ∀ n ∈ r.1, n.All P)
    (h : augmentOne e grouping s scope nodes a t = .ok (nodes', u)) : ∀ n ∈ nodes', n.All P := by
  obtain ⟨address, target, added, hsub, _, hadded, rfl⟩ := grown_of_augmentOne h
  have htarget : target.All P := .forestSubtree? hnodes hsub
  refine .forestReplace hnodes (htarget.addChildren fun c hc => ?_)
  obtain ⟨b, hb, rfl⟩ := List.mem_map.1 hc
  exact hP.all_markAugmenting (hP.all_addConditions (all_copyAll hchildren hadded b hb))

/-- What a `uses` becomes has the imprint, and so has all that is copied with a right mark. -/
theorem all_copy (hgrouping : ∀ site t r, grouping site t = .ok r → ∀ n ∈ r.1, n.All P)
    (d : Declaration) (hmark : marks addedByUses ∨ IsUses d) {r : List Node × TypeTable}
    (h : copy e grouping s addedByUses isMember scope d t = .ok r) : ∀ n ∈ r.1, n.All P := by
  induction d using Tree.inductBelow generalizing s addedByUses isMember scope t r with
  | step d ih =>
    obtain ⟨nodes, u⟩ := r
    have hbelow {mark : Bool} (hmark : marks mark) : ∀ a ∈ d.children, ∀ c ∈ a.subtrees,
        ∀ isMember scope t r, copy e grouping s mark isMember scope c t = .ok r →
          ∀ n ∈ r.1, n.All P :=
      fun a ha c hc _ _ _ _ hcopy => ih a ha c hc (.inl hmark) hcopy
    by_cases huses : IsUses d
    · obtain ⟨definition, brought, v, refined, _, hbrought, hrefined, haugments⟩ :=
        steps_of_uses huses h
      have hconditions : ∀ n ∈ brought.map
          (Node.addConditions (Node.conditionsOfDeclarations s.id d.children)), n.All P := by
        intro n hn
        obtain ⟨x, hx, rfl⟩ := List.mem_map.1 hn
        exact hP.all_addConditions (hgrouping _ _ _ hbrought x hx)
      have hrefinedAll := Result.foldlM_invariant (P := fun ns => ∀ n ∈ ns, n.All P)
        (fun _ _ _ hn hstep => hP.all_refine hn hstep) hconditions hrefined
      refine Building.foldlM_invariant (P := fun ns => ∀ n ∈ ns, n.All P) ?_ hrefinedAll haugments
      intro ns a ha ns' t u hns hstep
      have hchild := List.mem_of_mem_filter ha
      exact hP.all_augmentOne hns (fun c hc => hbelow hP.uses a hchild c
        (Tree.mem_subtrees_of_mem_child hc (Tree.mem_subtrees_self c))) hstep
    · have hmark : marks addedByUses := hmark.resolve_right huses
      obtain ⟨type, v, copied, _, hcopied, rfl⟩ := steps_of_not_uses huses h
      intro n hn
      rw [List.mem_singleton.1 hn]
      refine Tree.all_iff.2 ⟨hP.copied hmark s.id d.label type, ?_⟩
      exact all_copyAll (fun c hc => hbelow hmark c hc c (Tree.mem_subtrees_self c)) hcopied

theorem all_ofGrouping {depth : Nat} {pending : List Definition.Pending} {site : Site}
    {r : List Node × TypeTable} (h : e.ofGrouping depth pending site t = .ok r) :
    ∀ n ∈ r.1, n.All P := by
  induction depth generalizing pending site t r with
  | zero => cases h
  | succ depth ih =>
    obtain ⟨_, ⟨⟩, _, h⟩ := steps_of_ofGrouping h
    exact all_copyAll (fun c _ _ _ _ _ hcopy =>
      hP.all_copy (fun _ _ _ => ih) c (.inl hP.uses) hcopy) h

/-- All nodes of an instantiated module have an imprint that copying leaves with every mark. -/
theorem all_nodes (hmarks : ∀ mark, marks mark) (h : e.nodes t = .ok (nodes, u)) :
    ∀ n ∈ nodes, n.All P := by
  intro n hn
  obtain ⟨s, _, d, _, v, w, part, hcopy, hn⟩ := exists_copy_of_mem_nodes h hn
  exact hP.all_copy (fun _ _ _ => hP.all_ofGrouping) d (.inl (hmarks _)) hcopy n hn

end Imprint

end Expansion

end YangSchema
