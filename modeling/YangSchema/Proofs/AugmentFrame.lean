import YangSchema.Proofs.Addresses
import YangSchema.Proofs.AugmentIndependence

/-!
# What augments change

Applying all augments changes nothing but for what they add. Nodes are told apart by where they
stand (`Place`): a node that is there before stays at its place with its label, and what comes to
stand below it stands behind its children (`Forest.Extends`). What an augment adds is told by
grafts, one for every node of its content (`Graft`). `Accounts` says of a list of grafts that it
accounts for all that some augments have changed; one augment keeps such an account
(`Accounts.applyOne`), so that there is one for all of them (`augments_applied_once`).
-/

namespace YangSchema

/-- Where a node stands: the module of its tree and its address there. -/
structure Place where
  module : SourceId
  address : List Nat

/-- The place at an address below a place. -/
def Place.below (P : Place) (q : List Nat) : Place := ⟨P.module, P.address ++ q⟩

@[simp] theorem Place.below_nil (P : Place) : P.below [] = P := by
  unfold Place.below
  rw [List.append_nil]

theorem Place.below_below (P : Place) (i : Nat) (q : List Nat) :
    (P.below [i]).below q = P.below (i :: q) := by
  unfold Place.below
  rw [List.append_assoc, List.singleton_append]

namespace Forest

variable {model : DeclaredModel} {f g h : Forest} {m : SourceId} {l : NodeLabel} {n n' r x : Node}
  {P : Place} {p q : List Nat} {source : SourceId} {path : String} {steps : List Step} {t : Target}

/-! ## Places -/

/-- The node at a place. -/
def node? (f : Forest) (P : Place) : Option Node := (f.root? P.module).bind (·.subtree? P.address)

/-- The label of the node at a place. -/
def labelAt? (f : Forest) (P : Place) : Option NodeLabel := (f.node? P).map Tree.label

theorem labelAt?_eq_some : f.labelAt? P = some l
    ↔ ∃ r, f.root? P.module = some r ∧ r.labelAt? P.address = some l := by
  unfold labelAt? node?
  rw [Option.map_bind, Option.bind_eq_some_iff]
  rfl

/-- Above every node there are nodes. -/
theorem exists_labelAt?_of_below (h : f.labelAt? (P.below q) = some l) :
    ∃ l', f.labelAt? P = some l' := by
  obtain ⟨r, hr, hl⟩ := labelAt?_eq_some.1 h
  obtain ⟨x, hx, _⟩ := Option.map_eq_some_iff.1 hl
  rw [Place.below, Tree.subtree?_append] at hx
  obtain ⟨y, hy, _⟩ := Option.bind_eq_some_iff.1 hx
  refine ⟨y.label, labelAt?_eq_some.2 ⟨r, hr, ?_⟩⟩
  rw [Tree.labelAt?, hy]
  rfl

/-- All nodes of `f` stand in `g` where they stand in `f`. -/
def Extends (f g : Forest) : Prop := ∀ P l, f.labelAt? P = some l → g.labelAt? P = some l

theorem Extends.refl (f : Forest) : Extends f f := fun _ _ hl => hl

theorem Extends.trans (hfg : Extends f g) (hgh : Extends g h) : Extends f h :=
  fun P l hl => hgh P l (hfg P l hl)

theorem Extends.root? (hfg : Extends f g) (hr : f.root? m = some r) :
    ∃ s, g.root? m = some s ∧ Tree.Extends r s := by
  obtain ⟨s, hs, _⟩ := labelAt?_eq_some.1
    (hfg ⟨m, []⟩ r.label (labelAt?_eq_some.2 ⟨r, hr, rfl⟩))
  refine ⟨s, hs, fun p a ha => ?_⟩
  obtain ⟨s', hs', ha'⟩ := labelAt?_eq_some.1
    (hfg ⟨m, p⟩ a (labelAt?_eq_some.2 ⟨r, hr, ha⟩))
  cases hs.symm.trans hs'
  exact ha'

theorem Extends.node? (hfg : Extends f g) (hn : f.node? P = some n) :
    ∃ n', g.node? P = some n' ∧ Tree.Extends n n' := by
  obtain ⟨r, hr, hsub⟩ := Option.bind_eq_some_iff.1 hn
  obtain ⟨s, hs, hrs⟩ := hfg.root? hr
  obtain ⟨n', hn', hnn'⟩ := hrs.subtree? hsub
  exact ⟨n', Option.bind_eq_some_iff.2 ⟨s, hs, hn'⟩, hnn'⟩

/-! ## Paths -/

/-- Following steps leads to the node at the address. -/
theorem subtree?_of_follow (h : follow model source n steps = .ok (p, x)) :
    n.subtree? p = some x := by
  induction steps generalizing n p with
  | nil =>
    cases h
    rfl
  | cons step steps ih =>
    obtain ⟨m, i, c, q, _, _, hc, hrest, rfl⟩ := follow_cons_eq_ok.1 h
    rw [Tree.subtree?_cons, hc]
    exact ih hrest

/-- The first child of a name is the first one of an extension too. -/
theorem findIdx?_of_extends {k : Node.Name} {i : Nat} (hnn' : Tree.Extends n n')
    (hi : n.children.findIdx? (Node.hasName k) = some i) :
    n'.children.findIdx? (Node.hasName k) = some i := by
  have hsame {j : Nat} {c : Node} (hc : n.children[j]? = some c) :
      ∃ d, n'.children[j]? = some d ∧ Node.hasName k d = Node.hasName k c := by
    obtain ⟨d, hd, hcd⟩ := hnn'.child hc
    exact ⟨d, hd, Node.hasName_congr hcd.label⟩
  rw [List.findIdx?_eq_some_iff_getElem] at hi ⊢
  obtain ⟨hlt, hname, hbefore⟩ := hi
  obtain ⟨d, hd, hdname⟩ := hsame (List.getElem?_eq_getElem hlt)
  obtain ⟨hlt', rfl⟩ := List.getElem?_eq_some_iff.1 hd
  refine ⟨hlt', hdname.trans hname, fun j hj => ?_⟩
  obtain ⟨e, he, hename⟩ := hsame (List.getElem?_eq_getElem (hj.trans hlt))
  obtain ⟨_, rfl⟩ := List.getElem?_eq_some_iff.1 he
  rw [hename]
  exact hbefore j hj

/-- Steps that lead to a node lead to it in an extension. -/
theorem follow_of_extends (hnn' : Tree.Extends n n')
    (hfollow : follow model source n steps = .ok (p, x)) :
    ∃ x', follow model source n' steps = .ok (p, x') := by
  induction steps generalizing n n' p with
  | nil =>
    cases hfollow
    exact ⟨n', rfl⟩
  | cons step steps ih =>
    obtain ⟨m, i, c, q, hm, hi, hc, hrest, rfl⟩ := follow_cons_eq_ok.1 hfollow
    obtain ⟨d, hd, hcd⟩ := hnn'.child hc
    obtain ⟨x', hx'⟩ := ih hcd hrest
    exact ⟨x', follow_cons_eq_ok.2 ⟨m, i, d, q, hm, findIdx?_of_extends hnn' hi, hd, hx', rfl⟩⟩

theorem node?_of_locate (ht : locate model f source path = .ok t) :
    f.node? ⟨t.module, t.address⟩ = some t.node := by
  obtain ⟨_, _, m, r, _, _, hr, hfollow, rfl⟩ := locate_eq_ok.1 ht
  exact Option.bind_eq_some_iff.2 ⟨r, hr, subtree?_of_follow hfollow⟩

/-- A path leads to the same place when trees have been extended. -/
theorem locate_of_extends (hfg : Extends f g) (ht : locate model f source path = .ok t) :
    ∃ n, locate model g source path = .ok ⟨t.module, t.address, n⟩ := by
  obtain ⟨step, rest, m, r, hsteps, hm, hr, hfollow, rfl⟩ := locate_eq_ok.1 ht
  obtain ⟨s, hs, hrs⟩ := hfg.root? hr
  obtain ⟨n, hn⟩ := follow_of_extends hrs hfollow
  exact ⟨n, locate_eq_ok.2 ⟨step, rest, t.module, s, hsteps, hm, hs, hn, rfl⟩⟩

/-! ## Growing -/

theorem labelAt?_update_of_ne {change : Node → Node} (hne : m ≠ P.module) :
    (f.update m change).labelAt? P = f.labelAt? P := by
  unfold labelAt? node?
  rw [root?_update_of_ne hne]

/-- The nodes of a forest in which a node has grown. -/
theorem labelAt?_replace_addChildren {cs : List Node}
    (ht : f.node? ⟨t.module, t.address⟩ = some t.node) :
    (f.replace t (t.node.addChildren cs)).labelAt? P = some l
      ↔ f.labelAt? P = some l ∨ ∃ j c q, cs[j]? = some c
        ∧ P = (Place.mk t.module t.address).below ((t.node.children.length + j) :: q)
        ∧ c.labelAt? q = some l := by
  obtain ⟨r, hr, hsub⟩ := Option.bind_eq_some_iff.1 ht
  obtain ⟨m, p⟩ := P
  unfold replace
  by_cases hm : t.module = m
  · subst hm
    have hr' : (f.update t.module (Tree.replace (t.node.addChildren cs) t.address)).root? t.module
        = some (Tree.replace (t.node.addChildren cs) t.address r) := by
      rw [root?_update_self, hr]
      rfl
    simp only [labelAt?_eq_some, hr, hr', Option.some.injEq, exists_eq_left', Place.below,
      Place.mk.injEq, true_and]
    exact Tree.labelAt?_replace_addChildren hsub
  · rw [labelAt?_update_of_ne hm]
    constructor
    · exact .inl
    · rintro (h | ⟨_, _, _, _, hplace, _⟩)
      · exact h
      · exact absurd (congrArg Place.module hplace).symm hm

/-- Behind the children of a node there is nothing. -/
theorem labelAt?_behind_children {j : Nat}
    (ht : f.node? ⟨t.module, t.address⟩ = some t.node) :
    f.labelAt? ((Place.mk t.module t.address).below ((t.node.children.length + j) :: q))
      = none := by
  obtain ⟨r, hr, hsub⟩ := Option.bind_eq_some_iff.1 ht
  rw [Option.eq_none_iff_forall_ne_some]
  intro l hl
  obtain ⟨s, hs, hl⟩ := labelAt?_eq_some.1 hl
  cases hr.symm.trans hs
  rw [Place.below, Tree.labelAt?_behind_children hsub] at hl
  cases hl

end Forest

/-! ## Grafts -/

/-- A node of the content of an augment, and the place where a copy of it has come to stand. -/
structure Graft where
  augment : Node
  content : Node
  place : Place

namespace Graft

/-- The label that the copy has at an address. All nodes of a copy are marked; the conditions of
the augment stand behind those of the root. -/
def labelAt? (γ : Graft) (q : List Nat) : Option NodeLabel :=
  (γ.content.labelAt? q).map fun l =>
    { l with
      augmenting := true
      conditions := if q = [] then l.conditions ++ Node.conditions γ.augment else l.conditions }

/-- The copy has a node at a place. -/
def Covers (γ : Graft) (P : Place) : Prop := ∃ q l, γ.labelAt? q = some l ∧ P = γ.place.below q

end Graft

namespace Augmentation

variable {model : DeclaredModel} {f g h : Forest} {a c : Node} {as bs xs : List Node} {t : Target}
  {γ δ : Graft} {γs : List Graft} {P : Place} {q : List Nat} {l : NodeLabel}

theorem labelAt?_copy : ((Node.markAugmenting c).addConditions (Node.conditions a)).labelAt? q
    = (Graft.mk a c P).labelAt? q := by
  unfold Graft.labelAt?
  cases q with
  | nil =>
    obtain ⟨label, children⟩ := c
    rfl
  | cons i q =>
    have hbelow : ((Node.markAugmenting c).addConditions (Node.conditions a)).labelAt? (i :: q)
        = (Node.markAugmenting c).labelAt? (i :: q) := rfl
    rw [hbelow, Node.markAugmenting, Tree.labelAt?_map]
    rfl

/-- The grafts that an augment makes at its target. -/
def graftsAt (a : Node) (t : Target) : List Graft :=
  (content a).mapIdx fun j c =>
    ⟨a, c, (Place.mk t.module t.address).below [t.node.children.length + j]⟩

theorem mem_graftsAt_iff : γ ∈ graftsAt a t ↔ ∃ j c, (content a)[j]? = some c
    ∧ γ = ⟨a, c, (Place.mk t.module t.address).below [t.node.children.length + j]⟩ := by
  unfold graftsAt
  rw [List.mem_mapIdx]
  constructor
  · rintro ⟨j, hj, rfl⟩
    exact ⟨j, _, List.getElem?_eq_getElem hj, rfl⟩
  · rintro ⟨j, c, hc, rfl⟩
    obtain ⟨hj, rfl⟩ := List.getElem?_eq_some_iff.1 hc
    exact ⟨j, hj, rfl⟩

/-- An augment that succeeds makes its target grow, which admits it. -/
theorem exists_replace_of_applyOne (ha : applyOne model f a = .ok g) :
    ∃ t, Forest.locate model f a.label.source (a.label.argument.getD "") = .ok t
      ∧ Admits a t.node ∧ f.replace t (t.node.addChildren (copies a)) = g := by
  have hattempt := applyOne_eq_ok_iff_attempt.1 ha
  unfold attempt at hattempt
  split at hattempt
  · cases hattempt
  · rename_i t ht
    obtain ⟨x, hx, hreturn⟩ := Result.bind_eq_ok.1 hattempt
    obtain ⟨hadmits, rfl⟩ := splice_eq_ok.1 hx
    cases hreturn
    exact ⟨t, ht, hadmits, rfl⟩

/-- What one augment does: it finds its target and adds its grafts there. -/
theorem applyOne_eq_graft (ha : applyOne model f a = .ok g) :
    ∃ t, Forest.locate model f a.label.source (a.label.argument.getD "") = .ok t
      ∧ (∀ P l, g.labelAt? P = some l ↔ f.labelAt? P = some l
          ∨ ∃ γ ∈ graftsAt a t, ∃ q, γ.labelAt? q = some l ∧ P = γ.place.below q)
      ∧ ∀ γ ∈ graftsAt a t, ∀ P, γ.Covers P → f.labelAt? P = none := by
  obtain ⟨t, ht, _, rfl⟩ := exists_replace_of_applyOne ha
  have hnode := Forest.node?_of_locate ht
  refine ⟨t, ht, fun P l => ?_, ?_⟩
  · rw [Forest.labelAt?_replace_addChildren hnode]
    apply or_congr_right
    constructor
    · rintro ⟨j, d, q, hd, rfl, hl⟩
      rw [copies, List.getElem?_map] at hd
      obtain ⟨c, hc, rfl⟩ := Option.map_eq_some_iff.1 hd
      rw [labelAt?_copy] at hl
      exact ⟨_, mem_graftsAt_iff.2 ⟨j, c, hc, rfl⟩, q, hl, (Place.below_below _ _ _).symm⟩
    · rintro ⟨γ, hγ, q, hl, rfl⟩
      obtain ⟨j, c, hc, rfl⟩ := mem_graftsAt_iff.1 hγ
      refine ⟨j, _, q, by rw [copies, List.getElem?_map, hc]; rfl, Place.below_below _ _ _, ?_⟩
      rw [labelAt?_copy]
      exact hl
  · rintro γ hγ P ⟨q, l, _, rfl⟩
    obtain ⟨j, c, _, rfl⟩ := mem_graftsAt_iff.1 hγ
    rw [Place.below_below]
    exact Forest.labelAt?_behind_children hnode

/-! ## Accounts -/

/-- The grafts account for what has come of `f` by applying augments. -/
structure Accounts (model : DeclaredModel) (f g : Forest) (as : List Node) (γs : List Graft) :
    Prop where
  /-- What was there is there. -/
  keeps : Forest.Extends f g
  /-- Every node of the content of every augment has one graft. -/
  contributed : (γs.map fun γ => (γ.augment, γ.content)).Perm
    (as.flatMap fun a => (content a).map (a, ·))
  /-- A graft has made a child of the node to which the path of its augment leads. -/
  located : ∀ γ ∈ γs, ∃ t i, Forest.locate model g γ.augment.label.source
      (γ.augment.label.argument.getD "") = .ok t
    ∧ γ.place = (Place.mk t.module t.address).below [i]
  /-- The copy is there. -/
  copied : ∀ γ ∈ γs, ∀ q l, γ.labelAt? q = some l → g.labelAt? (γ.place.below q) = some l
  /-- The nodes of a copy were not there. -/
  fresh : ∀ γ ∈ γs, ∀ P, γ.Covers P → f.labelAt? P = none
  /-- No node is in two copies. -/
  disjoint : γs.Pairwise fun γ δ => ∀ P, γ.Covers P → ¬ δ.Covers P
  /-- What is there was there or is in a copy. -/
  covered : ∀ P l, g.labelAt? P = some l → f.labelAt? P = some l ∨ ∃ γ ∈ γs, γ.Covers P

theorem Accounts.nil (model : DeclaredModel) (f : Forest) : Accounts model f f [] [] where
  keeps := .refl f
  contributed := .nil
  located := fun _ hγ => absurd hγ List.not_mem_nil
  copied := fun _ hγ => absurd hγ List.not_mem_nil
  fresh := fun _ hγ => absurd hγ List.not_mem_nil
  disjoint := .nil
  covered := fun _ _ hl => .inl hl

/-- The copies that one augment makes are apart: they stand side by side. -/
theorem disjoint_graftsAt :
    (graftsAt a t).Pairwise fun γ δ => ∀ P, γ.Covers P → ¬ δ.Covers P := by
  unfold graftsAt
  rw [List.pairwise_iff_getElem]
  intro i j hi hj hij P hcovers hcovers'
  rw [List.getElem_mapIdx] at hcovers hcovers'
  obtain ⟨q, _, _, rfl⟩ := hcovers
  obtain ⟨q', _, _, hplace⟩ := hcovers'
  rw [Place.below_below, Place.below_below] at hplace
  have haddress := List.append_cancel_left (congrArg Place.address hplace)
  have hplaces := (List.cons.inj haddress).1
  omega

theorem map_graftsAt :
    (graftsAt a t).map (fun γ => (γ.augment, γ.content)) = (content a).map (a, ·) := by
  unfold graftsAt
  refine List.ext_getElem? fun j => ?_
  rw [List.getElem?_map, List.getElem?_map, List.getElem?_mapIdx, Option.map_map]
  rfl

/-- One augment more is accounted for by its grafts. -/
theorem Accounts.applyOne (haccounts : Accounts model f g as γs)
    (ha : applyOne model g a = .ok h) :
    ∃ γs', Accounts model f h (as ++ [a]) γs' := by
  obtain ⟨t, ht, hlabels, hnew⟩ := applyOne_eq_graft ha
  have hkeeps : Forest.Extends g h := fun P l hl => (hlabels P l).2 (.inl hl)
  have hcopied : ∀ γ ∈ graftsAt a t, ∀ q l, γ.labelAt? q = some l →
      h.labelAt? (γ.place.below q) = some l :=
    fun γ hγ q l hl => (hlabels _ l).2 (.inr ⟨γ, hγ, q, hl, rfl⟩)
  refine ⟨γs ++ graftsAt a t, ?_, ?_, ?_, ?_, ?_, ?_, ?_⟩
  · exact haccounts.keeps.trans hkeeps
  · rw [List.map_append, List.flatMap_append, map_graftsAt, List.flatMap_singleton]
    exact haccounts.contributed.append_right _
  · intro γ hγ
    rcases List.mem_append.1 hγ with hγ | hγ
    · obtain ⟨u, i, hu, hplace⟩ := haccounts.located γ hγ
      obtain ⟨n, hn⟩ := Forest.locate_of_extends hkeeps hu
      exact ⟨⟨u.module, u.address, n⟩, i, hn, hplace⟩
    · obtain ⟨j, c, _, rfl⟩ := mem_graftsAt_iff.1 hγ
      obtain ⟨n, hn⟩ := Forest.locate_of_extends hkeeps ht
      exact ⟨⟨t.module, t.address, n⟩, _, hn, rfl⟩
  · intro γ hγ q l hl
    rcases List.mem_append.1 hγ with hγ | hγ
    · exact hkeeps _ l (haccounts.copied γ hγ q l hl)
    · exact hcopied γ hγ q l hl
  · intro γ hγ P hcovers
    rcases List.mem_append.1 hγ with hγ | hγ
    · exact haccounts.fresh γ hγ P hcovers
    · have hnone := hnew γ hγ P hcovers
      rw [Option.eq_none_iff_forall_ne_some] at hnone ⊢
      intro l hl
      exact hnone l (haccounts.keeps P l hl)
  · rw [List.pairwise_append]
    refine ⟨haccounts.disjoint, disjoint_graftsAt, ?_⟩
    -- what an earlier graft covers was there when the augment was applied
    rintro γ hγ δ hδ P ⟨q, l, hl, rfl⟩ hcovers
    have hthere := haccounts.copied γ hγ q l hl
    rw [hnew δ hδ _ hcovers] at hthere
    cases hthere
  · intro P l hl
    rcases (hlabels P l).1 hl with hold | ⟨γ, hγ, q, hq, rfl⟩
    · refine (haccounts.covered P l hold).imp_right ?_
      rintro ⟨γ, hγ, hcovers⟩
      exact ⟨γ, List.mem_append_left _ hγ, hcovers⟩
    · exact .inr ⟨γ, List.mem_append_right _ hγ, q, l, hq, rfl⟩

/-- Augments that are applied in turn are accounted for. -/
theorem Accounts.applyInTurn (haccounts : Accounts model f g as γs)
    (hrun : applyInTurn model g xs = .ok h) : ∃ γs', Accounts model f h (as ++ xs) γs' := by
  induction xs generalizing g as γs with
  | nil =>
    cases hrun
    rw [List.append_nil]
    exact ⟨γs, haccounts⟩
  | cons x xs ih =>
    obtain ⟨k, hx, hrun⟩ := applyInTurn_cons_eq_ok.1 hrun
    obtain ⟨γs', haccounts'⟩ := haccounts.applyOne hx
    obtain ⟨γs'', haccounts''⟩ := ih haccounts' hrun
    rw [List.append_assoc] at haccounts''
    exact ⟨γs'', haccounts''⟩

/-- The account is the same for another order of the augments. -/
theorem Accounts.perm (haccounts : Accounts model f g as γs) (hperm : as.Perm bs) :
    Accounts model f g bs γs :=
  { haccounts with contributed := haccounts.contributed.trans (hperm.flatMap_right _) }

/-- What stands below the place of a graft is its copy and what other grafts have added. -/
theorem Accounts.below (haccounts : Accounts model f g as γs) (hγ : γ ∈ γs)
    (hl : g.labelAt? (γ.place.below q) = some l) :
    γ.labelAt? q = some l ∨ ∃ δ ∈ γs, δ ≠ γ ∧ δ.Covers (γ.place.below q) := by
  cases hq : γ.labelAt? q with
  | some l' =>
    have hcopied := haccounts.copied γ hγ q l' hq
    rw [hl] at hcopied
    exact .inl hcopied.symm
  | none =>
    right
    rcases haccounts.covered _ l hl with hold | ⟨δ, hδ, hcovers⟩
    · -- the root of the copy would have been there before
      obtain ⟨l', hl'⟩ := Forest.exists_labelAt?_of_below hold
      have hroot : γ.Covers γ.place := ⟨[], _, rfl, γ.place.below_nil.symm⟩
      rw [haccounts.fresh γ hγ _ hroot] at hl'
      cases hl'
    · refine ⟨δ, hδ, ?_, hcovers⟩
      rintro rfl
      obtain ⟨q', l', hq', hplace⟩ := hcovers
      have haddress := List.append_cancel_left (congrArg Place.address hplace)
      rw [haddress, hq'] at hq
      cases hq

/-! ## All augments -/

theorem exists_applyInTurn_of_applyInOrder {ms : List PendingModule}
    (hrun : applyInOrder model f ms = .ok g) :
    ∃ xs : List Node, xs.Perm (ms.flatMap (·.augments)) ∧ applyInTurn model f xs = .ok g := by
  induction ms generalizing f with
  | nil => exact ⟨[], .nil, hrun⟩
  | cons m ms ih =>
    obtain ⟨k, hm, hrun⟩ := applyInOrder_cons_eq_ok.1 hrun
    obtain ⟨ys, hys, hruny⟩ := exists_applyInTurn_eq model f m.augments
    obtain ⟨xs, hxs, hrunx⟩ := ih hrun
    refine ⟨ys ++ xs, ?_, applyInTurn_append_eq_ok.2 ⟨k, hruny.trans hm, hrunx⟩⟩
    rw [List.flatMap_cons]
    exact hys.append hxs

/-- The augments that are waiting are those of all modules. -/
theorem flatMap_pendingModules (f : Forest) :
    (pendingModules f).flatMap (·.augments) = f.flatMap (·.statements .augment) := by
  unfold pendingModules
  induction f with
  | nil => rfl
  | cons t f ih =>
    rw [List.map_cons, List.flatMap_cons, ← ih, List.filter_cons]
    split
    · rfl
    · rename_i hempty
      have hnone : t.statements .augment = [] := by simpa using hempty
      rw [hnone, List.nil_append]

/-- Applying all augments is applying each of them once, in some order. -/
theorem exists_applyInTurn_of_applyAll (distinct : (f.map (·.id)).Nodup)
    (happly : applyAll model f = .ok g) :
    ∃ xs : List Node, xs.Perm (f.flatMap (·.statements .augment))
      ∧ applyInTurn model f xs = .ok g := by
  rw [applyAll_eq] at happly
  obtain ⟨_, hcheck, happly⟩ := Result.bind_eq_ok.1 happly
  have acyclic := acyclic_of_checkCycles distinct hcheck
  rw [applyRounds_eq acyclic] at happly
  obtain ⟨xs, hxs, hrun⟩ := exists_applyInTurn_of_applyInOrder happly
  refine ⟨xs, hxs.trans ?_, hrun⟩
  rw [← flatMap_pendingModules]
  exact (flatten_rounds_perm acyclic _).flatMap_right _

/-- What applying all augments changes is accounted for. -/
theorem exists_accounts_of_applyAll {order : Bool} {sources : List Source}
    (declared : DeclaredModel.ofSources order sources = .ok model)
    (instantiated : Forest.ofModel model = .ok f) (happly : applyAll model f = .ok g) :
    ∃ γs, Accounts model f g (f.flatMap (·.statements .augment)) γs := by
  obtain ⟨xs, hperm, hrun⟩ :=
    exists_applyInTurn_of_applyAll (nodup_of_ofModel declared instantiated) happly
  obtain ⟨γs, haccounts⟩ := (Accounts.nil model f).applyInTurn hrun
  rw [List.nil_append] at haccounts
  exact ⟨γs, haccounts.perm hperm⟩

/-- All augments are applied exactly once, and nothing else is changed. Every node that was there
stays with all that is known of it, and its children remain the first ones. Every node of the
content of every augment at the top of a module has one graft: a copy of it, marked and subject to
the conditions of the augment, has become a new child of the node to which the path of the augment
leads. Every node was there before or is in exactly one of these copies; what stands inside a copy
and is not part of it is in another one. -/
theorem augments_applied_once {order : Bool} {sources : List Source}
    (declared : DeclaredModel.ofSources order sources = .ok model)
    (instantiated : Forest.ofModel model = .ok f) (happly : applyAll model f = .ok g) :
    (∀ P n, f.node? P = some n → ∃ n', g.node? P = some n' ∧ n'.label = n.label
        ∧ n.children.map Tree.label <+: n'.children.map Tree.label)
      ∧ ∃ γs, Accounts model f g (f.flatMap (·.statements .augment)) γs
        ∧ ∀ γ ∈ γs, ∀ q l, g.labelAt? (γ.place.below q) = some l →
          γ.labelAt? q = some l ∨ ∃ δ ∈ γs, δ ≠ γ ∧ δ.Covers (γ.place.below q) := by
  obtain ⟨γs, hall⟩ := exists_accounts_of_applyAll declared instantiated happly
  refine ⟨fun P n hn => ?_, γs, hall, fun γ hγ q l hl => hall.below hγ hl⟩
  obtain ⟨n', hn', hextends⟩ := hall.keeps.node? hn
  exact ⟨n', hn', hextends.label, hextends.children_prefix⟩

/-- Three augments of two modules make three grafts. -/
theorem augments_applied_once_three : ∃ f g γs, Forest.ofModel augmentingModel = .ok f
    ∧ applyAll augmentingModel f = .ok g ∧ γs.length = 3
    ∧ Accounts augmentingModel f g (f.flatMap (·.statements .augment)) γs := by
  have h : (do
      let f ← Forest.ofModel augmentingModel
      let _ ← applyAll augmentingModel f
      return (f.flatMap (·.statements .augment)).flatMap content |>.length : Result Nat)
      = .ok 3 := by
    decide +kernel
  obtain ⟨f, instantiated, h⟩ := Result.bind_eq_ok.1 h
  obtain ⟨g, happly, h⟩ := Result.bind_eq_ok.1 h
  obtain ⟨_, γs, haccounts, _⟩ :=
    augments_applied_once ofSources_augmentingModules instantiated happly
  refine ⟨f, g, γs, instantiated, happly, ?_, haccounts⟩
  have hlength := haccounts.contributed.length_eq
  simp only [List.length_map, List.length_flatMap] at hlength
  have hcount := Except.ok.inj h
  rw [List.length_flatMap] at hcount
  exact hlength.trans hcount

end Augmentation

end YangSchema
