import YangSchema.Proofs.CopiedTypes
import YangSchema.Proofs.Deviating
import YangSchema.Proofs.ImportLookup
import YangSchema.Proofs.Provenance
import YangSchema.Proofs.SiblingNames

/-!
# Parents and children

Some properties of trees are conditions `L` on every node and `R` on every node and each of its
children. Where copying makes such pairs and where it leaves them as they are is the same for all
these conditions (`Kinship`): a statement and its substatement are copied together, the content of a
grouping or of an `augment` comes to stand below another node than that under which it is written,
and so do the properties of a `refine` and of a `deviate` statement. What holds of these pairs holds
in the trees of all modules, before and after each augment and each deviation
(`Kinship.everywhere_stage`).
-/

namespace YangSchema

/-! ## Below a `refine` -/

namespace Kind

/-- The kinds of statements that are, or below which there can be, schema nodes or types. -/
def holdsNodes : Kind → Bool
  | .typedef | .type | .leaf | .leafList | .anydata | .anyxml | .deviation | .deviate => true
  | k => k.holdsUses

/-- A statement that holds no schema nodes or types has substatements of the same sort. -/
theorem not_holdsNodes_substatement {k c : Kind} (hk : k.holdsNodes = false)
    (hc : (k.substatement? c).isSome) : c.holdsNodes = false := by
  have h : ∀ k c : Kind, (k.holdsNodes || !(k.substatement? c).isSome || !c.holdsNodes) = true :=
    forall_iff.2 (by decide +kernel)
  simpa [hk, hc] using h k c

/-- What a `refine` states holds no schema nodes and no types. -/
theorem not_holdsNodes_of_refine {c : Kind} (hc : (Kind.refine.substatement? c).isSome) :
    c.holdsNodes = false := by
  have h : ∀ c ∈ all, (Kind.refine.substatement? c).isSome → c.holdsNodes = false := by
    decide +kernel
  exact h c (mem_all c) hc

theorem holdsNodes_of_isSchemaNode {k : Kind} (hk : k.isSchemaNode = true) :
    k.holdsNodes = true := by
  revert hk
  cases k <;> decide

end Kind

namespace Declaration

/-- Whether a statement is, or holds, a schema node or a type. -/
def holdsNodes (d : Declaration) : Bool := d.kind?.any Kind.holdsNodes

/-- There are no schema nodes and no types below a `refine`. -/
theorem Grammatical.not_holdsNodes_of_refine {d c x : Declaration} (h : d.Grammatical)
    (hd : d.is .refine = true) (hc : c ∈ d.children) (hx : x ∈ c.subtrees) :
    x.holdsNodes = false := by
  refine (h.child hc).not_any_below Kind.not_holdsNodes_substatement ?_ hx
  cases hkind : c.kind? with
  | none => rfl
  | some kind =>
    exact Kind.not_holdsNodes_of_refine (h.isSome_substatement? (is_iff.1 hd) hc hkind)

end Declaration

/-! ## Conditions on parents and children -/

/-- A condition `L` on a node, and `R` on it and each of its children. -/
def Kin (L : NodeLabel → Prop) (R : NodeLabel → NodeLabel → Prop) (l : NodeLabel)
    (ls : List NodeLabel) : Prop := L l ∧ ∀ c ∈ ls, R l c

/-- Conditions on a node and on it and a child that copying into modules leaves. -/
structure Kinship (model : DeclaredModel) (L : NodeLabel → Prop)
    (R : NodeLabel → NodeLabel → Prop) : Prop where
  /-- A statement is copied with its type. -/
  copied {e : Expansion} {k : Expansion.Manner} {d : Declaration} {t u : TypeTable}
    {type : Option EffectiveType} (hmodel : e.model = model) (h : Expansion.Copies e k d t)
    (hnot : ¬ IsUses d) (htype : e.typeOf k.source k.scope k.isMember d t = .ok (type, u)) :
    L (k.label e d type)
  /-- It stands below the copy of the statement below which it is written. -/
  under {e : Expansion} {k : Expansion.Manner} {c : Declaration} {t u : TypeTable}
    {type : Option EffectiveType} {l : NodeLabel} (hl : l.augmenting = false)
    (hmember : k.isMember = decide (l.binding = .builtin .type))
    (htype : e.typeOf k.source k.scope k.isMember c t = .ok (type, u)) : R l (k.label e c type)
  /-- The content of a grouping or an `augment` comes to stand below a node; it is marked where
  this is. -/
  content {l c : NodeLabel} (hcontent : Node.isAugmentContent c.binding = true)
    (hne : c.binding ≠ .builtin .uses) (hmarked : l.augmenting = true → c.augmenting = true) :
    R l c
  /-- A statement that is copied as it is has no type. -/
  declared (module source : SourceId) (addedByUses : Bool) (d : Declared) :
    L (.ofDeclared module source addedByUses d)
  /-- What a `refine` states comes to stand below a node. -/
  stated {module source : SourceId} {d : Declaration} {l : NodeLabel} (hd : d.holdsNodes = false) :
    R l (.ofDeclared module source true d.label)
  /-- What a `deviate` statement states comes to stand below a schema node. -/
  deviated {l l' c : NodeLabel} (hl : l.isSchemaNode = true) (hl' : l'.kind? = some .deviate)
    (hc : c.isSchemaNode = false) (h : R l' c) : R l c
  /-- Marks and conditions change nothing. -/
  marked {l : NodeLabel} (h : L l) : L { l with augmenting := true }
  conditions {l : NodeLabel} (cs : List Condition) (h : L l) : L { l with conditions := cs }
  marked_both {l c : NodeLabel} (h : R l c) :
    R { l with augmenting := true } { c with augmenting := true }
  conditions_parent {l c : NodeLabel} (cs : List Condition) (h : R l c) :
    R { l with conditions := cs } c

namespace Tree

/-- A condition that holds everywhere holds of what is put into a list of trees. -/
theorem Everywhere.forestReplace {α : Type} {P : α → List α → Prop} {u x : Tree α}
    {ts : List (Tree α)} {p : List Nat} (h : ∀ t ∈ ts, t.Everywhere P)
    (hx : forestSubtree? ts p = some x) (hlabel : u.label = x.label) (hu : u.Everywhere P) :
    ∀ t ∈ Tree.forestReplace u ts p, t.Everywhere P := by
  cases p with
  | nil => exact h
  | cons i rest =>
    obtain ⟨r, hr, hx⟩ := Option.bind_eq_some_iff.1 hx
    intro t ht
    rw [Tree.forestReplace] at ht
    obtain ⟨j, hj⟩ := List.mem_iff_getElem?.1 ht
    rw [List.getElem?_modify] at hj
    obtain ⟨s, hs, rfl⟩ := Option.map_eq_some_iff.1 hj
    split
    · rename_i hij
      subst hij
      cases hr.symm.trans hs
      exact (h r (List.mem_of_getElem? hs)).replace hx hlabel hu
    · exact h s (List.mem_of_getElem? hs)

theorem Everywhere.forestSubtree? {α : Type} {P : α → List α → Prop} {x : Tree α}
    {ts : List (Tree α)} {p : List Nat} (h : ∀ t ∈ ts, t.Everywhere P)
    (hx : Tree.forestSubtree? ts p = some x) : x.Everywhere P := by
  cases p with
  | nil => cases hx
  | cons i rest =>
    obtain ⟨r, hr, hx⟩ := Option.bind_eq_some_iff.1 hx
    exact (h r (List.mem_of_getElem? hr)).subtree? hx

end Tree

namespace Kinship

variable {model : DeclaredModel} {L : NodeLabel → Prop} {R : NodeLabel → NodeLabel → Prop}

theorem hereditary : Tree.Hereditary (Kin L R) :=
  fun _ _ _ hsub h => ⟨h.1, fun c hc => h.2 c (hsub.subset hc)⟩

variable (hK : Kinship model L R)

include hK

theorem unmarked : Augmentation.Unmarked (Kin L R) where
  marked l ls h := by
    refine ⟨hK.marked h.1, fun c hc => ?_⟩
    obtain ⟨b, hb, rfl⟩ := List.mem_map.1 hc
    exact hK.marked_both (h.2 b hb)
  conditions l ls cs h := ⟨hK.conditions cs h.1, fun c hc => hK.conditions_parent cs (h.2 c hc)⟩

/-! ### Marks -/

theorem addConditions {cs : List Condition} {n : Node} (hn : n.Everywhere (Kin L R)) :
    (n.addConditions cs).Everywhere (Kin L R) := by
  rw [Tree.everywhere_iff] at hn ⊢
  exact ⟨hK.unmarked.conditions _ _ _ hn.1, hn.2⟩

theorem markAugmenting {n : Node} (hn : n.Everywhere (Kin L R)) :
    (Node.markAugmenting n).Everywhere (Kin L R) :=
  Tree.Everywhere.map_iff.2 fun x hx => hK.unmarked.marked _ _ (hn x hx)

/-- A node may get content for children. -/
theorem addContent {n : Node} {cs : List Node} (hn : n.Everywhere (Kin L R))
    (hcs : ∀ c ∈ cs, c.Everywhere (Kin L R) ∧ Node.isAugmentContent c.label.binding = true
      ∧ c.label.binding ≠ .builtin .uses ∧ c.label.augmenting = true) :
    (n.addChildren cs).Everywhere (Kin L R) := by
  refine hn.addChildren (fun c hc => (hcs c hc).1) ⟨hn.root.1, ?_⟩
  rw [List.map_append, List.forall_mem_append]
  refine ⟨hn.root.2, List.forall_mem_map.2 fun c hc => ?_⟩
  obtain ⟨_, hcontent, hne, hmarked⟩ := hcs c hc
  exact hK.content hcontent hne fun _ => hmarked

/-! ### Refining -/

theorem everywhere_ofDeclaration (module source : SourceId) {d : Declaration}
    (hd : ∀ x ∈ d.subtrees, Declaration.holdsNodes x = false) :
    (Node.ofDeclaration module source true d).Everywhere (Kin L R) := by
  refine Tree.Everywhere.map_iff.2 fun x hx => ⟨hK.declared module source true x.label, ?_⟩
  rw [List.map_map]
  exact List.forall_mem_map.2 fun c hc => hK.stated (hd c (Tree.child_mem_subtrees hx hc))

theorem everywhere_refineProperty {e : Expansion} {source : SourceId} {n n' : Node}
    {property : Declaration} (hproperty : ∀ x ∈ property.subtrees, Declaration.holdsNodes x = false)
    (hn : n.Everywhere (Kin L R)) (h : e.refineProperty source n property = .ok n') :
    n'.Everywhere (Kin L R) := by
  obtain ⟨p, rfl⟩ := Expansion.room_of_refineProperty h
  have hall : (n.removeChildren p).Everywhere (Kin L R) := hn.removeChildren hereditary
  refine hall.addChildren (List.forall_mem_singleton.2
    (hK.everywhere_ofDeclaration e.module source hproperty)) ⟨hall.root.1, ?_⟩
  rw [List.map_append, List.forall_mem_append]
  refine ⟨hall.root.2, List.forall_mem_singleton.2 ?_⟩
  have hstated {l : NodeLabel} : R l (.ofDeclared e.module source true property.label) :=
    hK.stated (hproperty property (Tree.mem_subtrees_self property))
  obtain ⟨label, children⟩ := property
  exact hstated

theorem everywhere_refine {e : Expansion} {source : SourceId} {nodes nodes' : List Node}
    {d : Declaration} (hgrammar : d.Grammatical) (hd : d.is .refine = true)
    (hnodes : ∀ n ∈ nodes, n.Everywhere (Kin L R)) (h : e.refine source nodes d = .ok nodes') :
    ∀ n ∈ nodes', n.Everywhere (Kin L R) := by
  obtain ⟨address, target, refined, htarget, hrefined, rfl⟩ := Expansion.steps_of_refine h
  have hall := Result.foldlM_invariant_of_mem (P := fun n => n.Everywhere (Kin L R))
    (fun c hc _ _ hn hstep => hK.everywhere_refineProperty
      (fun x hx => hgrammar.not_holdsNodes_of_refine hd hc hx) hn hstep)
    (.forestSubtree? hnodes htarget) hrefined
  exact .forestReplace hnodes htarget (Expansion.label_of_refineProperties hrefined) hall

theorem everywhere_refineAll {e : Expansion} {source : SourceId} {nodes nodes' : List Node}
    {d : Declaration} (hgrammar : d.Grammatical) (hnodes : ∀ n ∈ nodes, n.Everywhere (Kin L R))
    (h : e.refineAll source nodes (d.children.filter (Declaration.is · .refine)) = .ok nodes') :
    ∀ n ∈ nodes', n.Everywhere (Kin L R) := by
  refine Result.foldlM_invariant_of_mem
    (P := fun ns : List Node => ∀ n ∈ ns, n.Everywhere (Kin L R))
    (fun c hc _ _ hn hstep => ?_) hnodes h
  obtain ⟨hc, hrefine⟩ := List.mem_filter.1 hc
  exact hK.everywhere_refine (hgrammar.child hc) hrefine hn hstep

end Kinship

/-! ## Copying -/

namespace Building

variable {α β : Type} {f : α → Building β} {g : β → α → Building β} {as : List α}
  {t u : TypeTable}

/-- Every result of a list is that of an element to which it comes. -/
theorem exists_comes_of_mem_mapM {bs : List β} {b : β} (hok : as.mapM f t = .ok (bs, u))
    (hb : b ∈ bs) : ∃ a v w, Comes f as t a v ∧ f a v = .ok (b, w) := by
  induction as using List.reverseRecOn generalizing bs u with
  | nil =>
    cases hok
    exact absurd hb List.not_mem_nil
  | append_singleton as a ih =>
    rw [List.mapM_append] at hok
    obtain ⟨bs', v, hbefore, hok⟩ := bind_eq_ok.1 hok
    obtain ⟨cs, w, hlast, hreturn⟩ := bind_eq_ok.1 hok
    cases hreturn
    rw [List.mapM_cons] at hlast
    obtain ⟨c, x, hc, hlast⟩ := bind_eq_ok.1 hlast
    cases hlast
    rcases List.mem_append.1 hb with hb | hb
    · obtain ⟨a', v', w', ⟨before, after, ds, rfl, hds⟩, ha'⟩ := ih hbefore hb
      refine ⟨a', v', w', ⟨before, after ++ [a], ds, ?_, hds⟩, ha'⟩
      rw [List.append_assoc, List.cons_append]
    · rw [List.mem_singleton.1 hb]
      exact ⟨a, v, _, ⟨as, [], bs', rfl, hbefore⟩, hc⟩

/-- Where every result is a list, what is in one of them is in that of an element to which it
comes. -/
theorem exists_comes_of_mem_flatten {f : α → Building (List β)} {bss : List (List β)} {b : β}
    (hok : as.mapM f t = .ok (bss, u)) (hb : b ∈ bss.flatten) :
    ∃ a bs v w, Comes f as t a v ∧ f a v = .ok (bs, w) ∧ b ∈ bs := by
  obtain ⟨bs, hbs, hb⟩ := List.mem_flatten.1 hb
  obtain ⟨a, v, w, hcomes, ha⟩ := exists_comes_of_mem_mapM hok hbs
  exact ⟨a, bs, v, w, hcomes, ha, hb⟩

/-- What each step of a fold keeps to which it comes holds at the end. -/
theorem foldlM_invariant_of_comesFrom {P : β → Prop} {b c : β}
    (hstep : ∀ a c u c' v, ComesFrom g as b t a c u → P c → g c a u = .ok (c', v) → P c')
    (hb : P b) (hok : as.foldlM g b t = .ok (c, u)) : P c := by
  induction as using List.reverseRecOn generalizing c u with
  | nil =>
    cases hok
    exact hb
  | append_singleton as a ih =>
    rw [List.foldlM_append] at hok
    obtain ⟨c', v, hbefore, hok⟩ := bind_eq_ok.1 hok
    rw [List.foldlM_cons] at hok
    obtain ⟨c'', w, ha, hreturn⟩ := bind_eq_ok.1 hok
    cases hreturn
    refine hstep a c' v _ _ ⟨as, [], rfl, hbefore⟩ (ih ?_ hbefore) ha
    rintro a' c₁ u₁ c₂ v₁ ⟨before, after, rfl, hb'⟩ hP hstep'
    refine hstep a' c₁ u₁ c₂ v₁ ⟨before, after ++ [a], ?_, hb'⟩ hP hstep'
    rw [List.append_assoc, List.cons_append]

end Building

namespace Kinship

open Building (Comes)
open Expansion

variable {model : DeclaredModel} {L : NodeLabel → Prop} {R : NodeLabel → NodeLabel → Prop}
  {order : Bool} {sources : List Source} {e : Expansion} {k : Manner} {d : Declaration}
  {t u : TypeTable} {nodes : List Node} (hK : Kinship model L R)

include hK

/-- What a statement becomes may stand below what is no copy of an `augment`. -/
theorem related_of_copy {l : NodeLabel} {n : Node} (hl : l.augmenting = false)
    (hmember : k.isMember = decide (l.binding = .builtin .type))
    (hok : k.copy e d t = .ok (nodes, u)) (hn : n ∈ nodes) : R l n.label := by
  rcases origin_of_copy (fun _ _ _ => isBrought_of_ofGrouping) hok hn with
    ⟨_, _, hcontent, hne⟩ | ⟨hnot, _⟩
  · refine hK.content ?_ hne fun h => absurd (h.symm.trans hl) (by decide)
    rw [Node.isAugmentContent, hcontent, Bool.true_or]
  · obtain ⟨type, v, parts, htype, _, rfl⟩ := Manner.mapM_of_not_uses hnot hok
    rw [List.mem_singleton.1 hn]
    exact hK.under hl hmember htype

/-- An `augment` under a `uses` keeps the conditions if its content meets them. -/
theorem everywhere_augmentOne {a : Declaration} {changed : List Node}
    (hnodes : ∀ n ∈ nodes, n.Everywhere (Kin L R))
    (hcontent : ∀ target c w part x, augmentTarget k.source.id a.label nodes = .ok target →
      Comes ((k.added a).copy e)
        (a.children.filter fun c => Node.isAugmentContent c.label.binding) t c w →
      (k.added a).copy e c w = .ok (part, x) → ∀ n ∈ part, n.Everywhere (Kin L R))
    (hok : augmentOne e (e.ofGrouping k.depth k.pending) k.source k.scope nodes a t
      = .ok (changed, u)) : ∀ n ∈ changed, n.Everywhere (Kin L R) := by
  obtain ⟨address, target, added, htarget, hadded, rfl⟩ := target_of_augmentOne hok
  obtain ⟨hsub, _⟩ := augmentTarget_eq_ok htarget
  obtain ⟨parts, hparts, rfl⟩ := copyAll_eq_ok.1 hadded
  refine .forestReplace hnodes hsub rfl
    (hK.addContent (.forestSubtree? hnodes hsub) fun n hn => ?_)
  obtain ⟨x, hx, rfl⟩ := List.mem_map.1 hn
  obtain ⟨hbinding, hne⟩ := content_of_copyAll hadded hx
  obtain ⟨c, part, y, z, hcomes, hcopy, hx⟩ := Building.exists_comes_of_mem_flatten hparts hx
  have hcopied := hcontent _ c y part z htarget hcomes hcopy x hx
  refine ⟨hK.markAugmenting (hK.addConditions hcopied), ?_⟩
  obtain ⟨label, children⟩ := x
  exact ⟨hbinding, hne, rfl⟩

/-- Whatever is copied into a module meets the conditions, with all that stands below. -/
theorem everywhere_copy (hmodel : e.model = model)
    (declared : DeclaredModel.ofSources order sources = .ok e.model) (h : Copies e k d t)
    (hok : k.copy e d t = .ok (nodes, u)) : ∀ n ∈ nodes, n.Everywhere (Kin L R) := by
  induction k, d using Manner.induct generalizing t nodes u with
  | step k d ihcontent ihbelow ihadded =>
    have hlexical := h.lexical declared
    have hgrammar : Declaration.Grammatical d :=
      (DeclaredModel.grammatical_of_ofSources declared hlexical.source).of_mem
        hlexical.holds.mem_subtrees
    by_cases huses : IsUses d
    · obtain ⟨g, brought, v, refined, hresolve, hbrought, hrefined, haugments⟩ :=
        steps_of_uses huses hok
      have hcontent : ∀ n ∈ brought, n.Everywhere (Kin L R) := by
        obtain ⟨m, parts, hm, hnot, hparts, rfl⟩ := Manner.mapM_of_ofGrouping_ok hbrought
        intro n hn
        obtain ⟨c, part, w, x, hcomes, hcopy, hn⟩ :=
          Building.exists_comes_of_mem_flatten hparts hn
        exact ihcontent m g c hm (.content h huses hresolve hm hnot hcomes) hcopy n hn
      have hconditions : ∀ n ∈ k.brought d brought, n.Everywhere (Kin L R) := by
        intro n hn
        obtain ⟨x, hx, rfl⟩ := List.mem_map.1 hn
        exact hK.addConditions (hcontent x hx)
      refine Building.foldlM_invariant_of_comesFrom
        (P := fun ns : List Node => ∀ n ∈ ns, n.Everywhere (Kin L R)) ?_
        (hK.everywhere_refineAll hgrammar hconditions hrefined) haugments
      intro a changed w changed' x hfrom hchanged ha
      refine hK.everywhere_augmentOne hchanged
        (fun target c y part z htarget hcomes hcopy => ?_) ha
      have hamem := (List.mem_filter.1 hfrom.mem).1
      have hcmem := (List.mem_filter.1 hcomes.mem).1
      exact ihadded a hamem c hcmem
        (.added h huses hresolve hbrought hrefined hfrom htarget hcomes) hcopy
    · obtain ⟨type, v, parts, htype, hparts, rfl⟩ := Manner.mapM_of_not_uses huses hok
      refine List.forall_mem_singleton.2 (Tree.everywhere_iff.2
        ⟨⟨hK.copied hmodel h huses htype, ?_⟩, ?_⟩)
      · refine List.forall_mem_map.2 fun n hn => ?_
        obtain ⟨c, part, w, x, _, hcopy, hn⟩ := Building.exists_comes_of_mem_flatten hparts hn
        exact hK.related_of_copy rfl rfl hcopy hn
      · intro n hn
        obtain ⟨c, part, w, x, hcomes, hcopy, hn⟩ :=
          Building.exists_comes_of_mem_flatten hparts hn
        exact ihbelow c hcomes.mem (.under h huses htype hcomes) hcopy n hn

end Kinship

/-! ## Modules -/

namespace DeclaredModel

variable {order : Bool} {sources : List Source} {model : DeclaredModel} {s : DeclaredSource}

/-- The root of a source is a module or a submodule. -/
theorem kind_root (declared : ofSources order sources = .ok model) (hs : s ∈ model.sources) :
    s.root.is .module = true ∨ s.root.is .submodule = true := by
  obtain ⟨sorted, _, hdeclares⟩ := exists_declared declared
  obtain ⟨source, _, hsource⟩ := exists_mem_of_forall₂ hdeclares hs
  obtain ⟨isModule, hread⟩ := Header.readFrom_of_ofSource hsource.header
  obtain ⟨extensions, hbound⟩ := hsource.bound
  have hbinds := Declaration.bindsTo_root hbound
  rw [hbinds.is_iff, hbinds.is_iff, hsource.written]
  cases isModule with
  | true => exact .inl hread.keyword
  | false => exact .inr hread.keyword

end DeclaredModel

namespace Kinship

variable {model : DeclaredModel} {L : NodeLabel → Prop} {R : NodeLabel → NodeLabel → Prop}
  {order : Bool} {sources : List Source} {f g : Forest}

/-- In the trees of modules that have been instantiated the conditions hold. -/
theorem everywhere_ofModel (hK : Kinship model L R)
    (declared : DeclaredModel.ofSources order sources = .ok model)
    (instantiated : Forest.ofModel model = .ok f) : f.Everywhere (Kin L R) := by
  intro t ht
  obtain ⟨m, hm, hmodule⟩ := Result.exists_of_mem_mapM instantiated ht
  obtain ⟨⟨nodes, u⟩, hnodes, hreturn⟩ := Result.bind_eq_ok.1 hmodule
  cases hreturn
  have hroot : ¬ m.root.label.binding = .builtin .type := by
    intro hbinding
    rcases DeclaredModel.kind_root declared (List.mem_of_mem_filter hm) with h | h <;>
      cases (Declaration.is_iff.1 h).symm.trans hbinding
  obtain ⟨parts, v, hparts, hreturn⟩ := Building.bind_eq_ok.1 hnodes
  cases hreturn
  have hall : ∀ n ∈ parts.flatten, n.Everywhere (Kin L R)
      ∧ R (.ofDeclared m.id m.id false m.root.label) n.label := by
    intro n hn
    obtain ⟨s, part, w, x, hsource, hpart, hn⟩ := Building.exists_comes_of_mem_flatten hparts hn
    obtain ⟨copied, hcopied, rfl⟩ := Expansion.copyAll_eq_ok.1 hpart
    obtain ⟨d, part, y, z, hcomes, hcopy, hn⟩ := Building.exists_comes_of_mem_flatten hcopied hn
    have hmember : (Expansion.Manner.top ⟨model, m.id⟩ s).isMember
        = decide (m.root.label.binding = .builtin .type) := (decide_eq_false hroot).symm
    exact ⟨hK.everywhere_copy rfl declared (.top hsource hcomes) hcopy n hn,
      hK.related_of_copy (k := .top ⟨model, m.id⟩ s) rfl hmember hcopy hn⟩
  refine Tree.everywhere_iff.2 ⟨⟨hK.declared m.id m.id false m.root.label, ?_⟩, ?_⟩
  · exact List.forall_mem_map.2 fun n hn => (hall n hn).2
  · exact fun n hn => (hall n hn).1

/-- An augment at the top of a module keeps the conditions. -/
theorem everywhere_attempt (hK : Kinship model L R) (instantiated : Forest.ofModel model = .ok f)
    (distinct : (g.map (·.id)).Nodup) (hf : f.Everywhere (Kin L R)) (hg : g.Everywhere (Kin L R))
    {a : Node} {h : Forest} (ha : a ∈ f.flatMap (·.statements .augment))
    (happly : Augmentation.attempt model g a = .ok (.ok h)) : h.Everywhere (Kin L R) := by
  obtain ⟨t, ht, _, hiff⟩ := Augmentation.everywhere_applyOne_iff hK.unmarked distinct hg
    (hf.statements ha) (Augmentation.applyOne_eq_ok_iff_attempt.2 happly)
  refine hiff.2 ⟨(hg.node? (Forest.node?_of_locate ht)).root.1, ?_⟩
  rw [List.map_append, List.forall_mem_append]
  refine ⟨(hg.node? (Forest.node?_of_locate ht)).root.2, List.forall_mem_map.2 fun c hc => ?_⟩
  obtain ⟨n, hn, rfl⟩ := List.mem_map.1 hc
  obtain ⟨tree, htree, ha⟩ := List.mem_flatMap.1 ha
  obtain ⟨_, hschema⟩ := Augmentation.content_of_instantiated instantiated htree ha hn
  obtain ⟨_, hcontent⟩ := List.mem_filter.1 hn
  have hne := Augmentation.ne_uses_of_isSchemaNode hschema
  obtain ⟨label, children⟩ := n
  exact hK.content hcontent hne fun _ => rfl

/-- A deviation keeps the conditions. -/
theorem everywhere_apply (hK : Kinship model L R)
    (declared : DeclaredModel.ofSources order sources = .ok model)
    (instantiated : Forest.ofModel model = .ok f)
    (distinct : (g.map (·.id)).Nodup) (hf : f.Everywhere (Kin L R)) (hg : g.Everywhere (Kin L R))
    {d : Node} {h : Forest} (hd : d ∈ f.flatMap (·.statements .deviation))
    (happly : Deviation.apply model g d = .ok h) : h.Everywhere (Kin L R) := by
  obtain ⟨t, ht, _⟩ := Result.bind_eq_ok.1 happly
  obtain ⟨T, hT⟩ := Deviation.exists_kind_of_target ht
  have hlocate := Deviation.target_eq_ok.1 ht
  have hnode := Forest.node?_of_locate hlocate
  obtain ⟨xs, hxs, ⟨_, rfl⟩ | ⟨_, cs, hedits, rfl⟩⟩ := (Deviation.apply_eq_ok ht hT).1 happly
  · exact hg.remove hereditary distinct hnode
  · obtain ⟨_, _, _, _, _, _, _, hfollow, rfl⟩ := Forest.locate_eq_ok.1 hlocate
    have hschema := Forest.isSchemaNode_of_follow hfollow
    have hold := hg.node? hnode
    rw [← List.append_nil (Tree.children _)] at hedits
    obtain ⟨kept, added, rfl, hkept, hadded⟩ := hedits.exists_append
    have hproperty : ∀ c ∈ added, c.Everywhere (Kin L R) ∧ R t.node.label c.label := by
      intro c hc
      obtain ⟨step, hstep, rfl⟩ := List.mem_map.1 (hadded.subset hc)
      obtain ⟨n, hn, hproperty⟩ := Deviation.exists_deviate_of_mem_properties hxs hstep
      have hname := Deviation.not_isSchemaNode_property
        (Deviation.followsGrammar_of_instantiated declared instantiated hd) hn hproperty
      obtain ⟨hn, hkind⟩ := List.mem_filter.1 hn
      have hdeviate := (hf.statements hd).child hn
      exact ⟨hdeviate.child hproperty, hK.deviated hschema (beq_iff_eq.1 hkind) hname
        (hdeviate.root.2 _ (List.mem_map_of_mem hproperty))⟩
    refine hg.replace distinct hnode rfl (Tree.everywhere_iff.2 ⟨⟨hold.root.1, ?_⟩, ?_⟩)
    · rw [List.map_append, List.forall_mem_append]
      refine ⟨fun l hl => hold.root.2 l ((hkept.map Tree.label).subset hl), ?_⟩
      exact List.forall_mem_map.2 fun c hc => (hproperty c hc).2
    · exact List.forall_mem_append.2 ⟨fun c hc => hold.child (hkept.subset hc),
        fun c hc => (hproperty c hc).1⟩

/-- The conditions hold in the trees of all modules, whatever augments and deviations have been
applied to them. -/
theorem everywhere_stage (hK : Kinship model L R)
    (declared : DeclaredModel.ofSources order sources = .ok model)
    (instantiated : Forest.ofModel model = .ok f) (hg : Forest.Stage model f g) :
    g.Everywhere (Kin L R) := by
  have hf := hK.everywhere_ofModel declared instantiated
  have distinct {h : Forest} (hh : Forest.Stage model f h) : (h.map (·.id)).Nodup := by
    rw [hh.map_id]
    exact Augmentation.nodup_of_ofModel declared instantiated
  induction hg with
  | instantiated => exact hf
  | augment hstage ha happly ih =>
    exact hK.everywhere_attempt instantiated (distinct hstage) hf ih ha happly
  | deviation hstage hd happly ih =>
    exact hK.everywhere_apply declared instantiated (distinct hstage) hf ih hd happly

end Kinship

end YangSchema
