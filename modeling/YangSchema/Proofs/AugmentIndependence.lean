import YangSchema.Proofs.AugmentConfluence
import YangSchema.Proofs.AugmentOrder

/-!
# Independent modules

What a module adds are nodes of this module. A path without a step of the module leads nowhere where
it would not lead without these nodes (`Avoids`), so the augments of a module that does not depend
on another one can change places with those of the other (`applyModule_exchange`). So any two
orders in which every module comes behind those on which it depends give the same trees, up to the
order of siblings, and applying the augments in rounds gives them too
(`independent_augments_commute`).
-/

namespace YangSchema

open Relation
open Forest (Rearranged)

namespace Augmentation

variable {model : DeclaredModel} {f f' f₀ g h : Forest} {a b : Node} {as bs xs ys : List Node}
  {p q m : PendingModule} {ms ns : List PendingModule}

/-! ## Paths that avoid an augment -/

/-- No step of the path of `b` names a node of the content of `a`. -/
def Avoids (model : DeclaredModel) (a b : Node) : Prop :=
  ∀ ks, pathOf? model b = some ks → ∀ k ∈ ks, ∀ c ∈ content a, nameOf c ≠ k

/-- An augment does not open a path that avoids it. -/
theorem Resolves.before_applyOne (distinct : (f.map (·.id)).Nodup) (havoids : Avoids model a b)
    (ha : applyOne model f a = .ok g) (hb : Resolves model g b) : Resolves model f b := by
  obtain ⟨ks, _, _, _, _, rfl⟩ := (applyOne_eq_ok distinct).1 ha
  obtain ⟨ls, n, hls, hn⟩ := hb
  have hnew : ∀ l ∈ ls, ∀ c ∈ copies a, ¬ Node.hasName l c = true := by
    intro l hl c hc hname
    obtain ⟨d, hd, hdc, _⟩ := exists_content_of_mem_copies hc
    exact havoids ls hls l hl d hd (hdc.trans (Node.nameOf_of_hasName hname))
  obtain ⟨n', hn'⟩ := Forest.exists_descend?_of_grow hnew hn
  exact ⟨ls, n', hls, hn'⟩

theorem Resolves.before_applyInTurn (distinct : (f.map (·.id)).Nodup)
    (havoids : ∀ a ∈ as, Avoids model a b) (has : applyInTurn model f as = .ok g)
    (hb : Resolves model g b) : Resolves model f b := by
  induction as generalizing f with
  | nil =>
    cases has
    exact hb
  | cons a as ih =>
    obtain ⟨f', ha, has⟩ := applyInTurn_cons_eq_ok.1 has
    have hb' := ih (map_id_of_applyOne ha ▸ distinct)
      (fun x hx => havoids x (List.mem_cons_of_mem a hx)) has
    exact hb'.before_applyOne distinct (havoids a List.mem_cons_self) ha

/-- Augments whose paths avoid those before them can be applied first. -/
theorem applyInTurn_exchange (distinct : (f.map (·.id)).Nodup) (hnamed : ∀ x ∈ xs, Named x)
    (havoids : ∀ x ∈ xs, ∀ y ∈ ys, Avoids model x y)
    (hrun : applyInTurn model f (xs ++ ys) = .ok g) :
    ∃ g', applyInTurn model f (ys ++ xs) = .ok g' ∧ Rearranged NodeLabel.Apart g g' := by
  induction ys generalizing f g with
  | nil =>
    rw [List.append_nil] at hrun
    exact ⟨g, hrun, .refl g⟩
  | cons y ys ih =>
    -- nothing that is applied before `y` opens its path, so this leads somewhere now
    have hresolves : Resolves model f y := by
      obtain ⟨k, hxs, hys⟩ := applyInTurn_append_eq_ok.1 hrun
      obtain ⟨_, hy, _⟩ := applyInTurn_cons_eq_ok.1 hys
      have hky := resolves_of_applyOne (map_id_of_applyInTurn hxs ▸ distinct) hy
      exact hky.before_applyInTurn distinct (fun x hx => havoids x hx y List.mem_cons_self) hxs
    obtain ⟨g₁, hfront, hg₁⟩ := applyInTurn_to_front distinct hnamed hrun hresolves
    obtain ⟨f', hy, hrest⟩ := applyInTurn_cons_eq_ok.1 hfront
    obtain ⟨g₂, hrun', hg₂⟩ := ih (map_id_of_applyOne hy ▸ distinct)
      (fun x hx y' hy' => havoids x hx y' (List.mem_cons_of_mem y hy')) hrest
    exact ⟨g₂, applyInTurn_cons_eq_ok.2 ⟨f', hy, hrun'⟩, hg₁.trans hg₂⟩

/-! ## Modules -/

theorem map_id_of_applyModule (hmodule : applyModule model f as = .ok g) :
    g.map (·.id) = f.map (·.id) := by
  obtain ⟨xs, _, hrun⟩ := exists_applyInTurn_eq model f as
  exact map_id_of_applyInTurn (hrun.trans hmodule)

theorem applyModule_rearranged (distinct : (f.map (·.id)).Nodup) (hnamed : ∀ a ∈ as, Named a)
    (hf : Rearranged NodeLabel.Apart f f') (hmodule : applyModule model f as = .ok g) :
    ∃ g', applyModule model f' as = .ok g' ∧ Rearranged NodeLabel.Apart g g' := by
  obtain ⟨xs, hperm, hrun⟩ := exists_applyInTurn_eq model f as
  obtain ⟨g₁, hrun', hg₁⟩ := applyInTurn_rearranged distinct hf (hrun.trans hmodule)
  obtain ⟨g', hg', hg₁g'⟩ :=
    applyModule_of_applyInTurn (hf.map_id ▸ distinct) hnamed hperm hrun'
  exact ⟨g', hg', hg₁.trans hg₁g'⟩

/-- A module whose paths avoid what another one adds can have its turn before it. -/
theorem applyModule_exchange (distinct : (f.map (·.id)).Nodup) (hnamed : ∀ a ∈ as, Named a)
    (hnamed' : ∀ b ∈ bs, Named b) (havoids : ∀ a ∈ as, ∀ b ∈ bs, Avoids model a b)
    (hp : applyModule model f as = .ok g) (hq : applyModule model g bs = .ok h) :
    ∃ g' h', applyModule model f bs = .ok g' ∧ applyModule model g' as = .ok h'
      ∧ Rearranged NodeLabel.Apart h h' := by
  obtain ⟨xs, hxs, hrunx⟩ := exists_applyInTurn_eq model f as
  obtain ⟨ys, hys, hruny⟩ := exists_applyInTurn_eq model g bs
  have hrun : applyInTurn model f (xs ++ ys) = .ok h :=
    applyInTurn_append_eq_ok.2 ⟨g, hrunx.trans hp, hruny.trans hq⟩
  obtain ⟨h₁, hswapped, hh₁⟩ := applyInTurn_exchange distinct
    (fun x hx => hnamed x (hxs.mem_iff.1 hx))
    (fun x hx y hy => havoids x (hxs.mem_iff.1 hx) y (hys.mem_iff.1 hy)) hrun
  obtain ⟨k, hrunk, hrest⟩ := applyInTurn_append_eq_ok.1 hswapped
  -- each of the two runs is what applying a module comes to, up to the order of siblings
  obtain ⟨g', hg', hkg'⟩ := applyModule_of_applyInTurn distinct hnamed' hys hrunk
  have distinctk : (k.map (·.id)).Nodup := map_id_of_applyInTurn hrunk ▸ distinct
  obtain ⟨h₂, hrest', hh₂⟩ := applyInTurn_rearranged distinctk hkg' hrest
  obtain ⟨h', hh', hh₂h'⟩ :=
    applyModule_of_applyInTurn (hkg'.map_id ▸ distinctk) hnamed hxs hrest'
  exact ⟨g', h', hg', hh', hh₁.trans (hh₂.trans hh₂h')⟩

/-- Applies the augments of modules, one module after the other. -/
def applyInOrder (model : DeclaredModel) (f : Forest) (ms : List PendingModule) : Result Forest :=
  ms.foldlM (fun f m => applyModule model f m.augments) f

theorem applyInOrder_cons_eq_ok : applyInOrder model f (m :: ms) = .ok h
    ↔ ∃ g, applyModule model f m.augments = .ok g ∧ applyInOrder model g ms = .ok h := by
  unfold applyInOrder
  rw [List.foldlM_cons, Result.bind_eq_ok]

/-- The content of all augments of a module has names. -/
def NamedModule (m : PendingModule) : Prop := ∀ a ∈ m.augments, Named a

/-- The paths of `q` avoid what `p` adds. -/
def AvoidsModule (model : DeclaredModel) (p q : PendingModule) : Prop :=
  ∀ a ∈ p.augments, ∀ b ∈ q.augments, Avoids model a b

theorem applyInOrder_rearranged (distinct : (f.map (·.id)).Nodup)
    (hnamed : ∀ m ∈ ms, NamedModule m) (hf : Rearranged NodeLabel.Apart f f')
    (hrun : applyInOrder model f ms = .ok g) :
    ∃ g', applyInOrder model f' ms = .ok g' ∧ Rearranged NodeLabel.Apart g g' := by
  induction ms generalizing f f' with
  | nil =>
    cases hrun
    exact ⟨f', rfl, hf⟩
  | cons m ms ih =>
    obtain ⟨k, hm, hrun⟩ := applyInOrder_cons_eq_ok.1 hrun
    obtain ⟨k', hm', hk⟩ := applyModule_rearranged distinct (hnamed m List.mem_cons_self) hf hm
    obtain ⟨g', hrun', hg⟩ := ih (map_id_of_applyModule hm ▸ distinct)
      (fun n hn => hnamed n (List.mem_cons_of_mem m hn)) hk hrun
    exact ⟨g', applyInOrder_cons_eq_ok.2 ⟨k', hm', hrun'⟩, hg⟩

/-- A module whose paths avoid what the modules before it add can have its turn before them. -/
theorem applyInOrder_to_front (distinct : (f.map (·.id)).Nodup)
    (hnamed : ∀ n ∈ ms ++ m :: ns, NamedModule n) (havoids : ∀ n ∈ ms, AvoidsModule model n m)
    (hrun : applyInOrder model f (ms ++ m :: ns) = .ok g) :
    ∃ g', applyInOrder model f (m :: (ms ++ ns)) = .ok g' ∧ Rearranged NodeLabel.Apart g g' := by
  induction ms generalizing f with
  | nil => exact ⟨g, hrun, .refl g⟩
  | cons n ms ih =>
    obtain ⟨k, hn, hrun⟩ := applyInOrder_cons_eq_ok.1 hrun
    have distinctk : (k.map (·.id)).Nodup := map_id_of_applyModule hn ▸ distinct
    obtain ⟨g₁, hfront, hg₁⟩ := ih distinctk
      (fun x hx => hnamed x (List.mem_cons_of_mem n hx))
      (fun x hx => havoids x (List.mem_cons_of_mem n hx)) hrun
    obtain ⟨l, hm, hrest⟩ := applyInOrder_cons_eq_ok.1 hfront
    have hnamedm : NamedModule m := hnamed m (by simp)
    obtain ⟨k', l', hm', hn', hl⟩ := applyModule_exchange distinct (hnamed n List.mem_cons_self)
      hnamedm (havoids n List.mem_cons_self) hn hm
    have hnamedrest : ∀ x ∈ ms ++ ns, NamedModule x := by
      intro x hx
      apply hnamed x
      rw [List.mem_append] at hx
      simp only [List.cons_append, List.mem_cons, List.mem_append]
      tauto
    obtain ⟨g', hrest', hg'⟩ := applyInOrder_rearranged (map_id_of_applyModule hm ▸ distinctk)
      hnamedrest hl hrest
    refine ⟨g', applyInOrder_cons_eq_ok.2 ⟨k', hm', ?_⟩, hg₁.trans hg'⟩
    exact applyInOrder_cons_eq_ok.2 ⟨l', hn', hrest'⟩

/-- Modules that can be applied in some order can be applied in every order in which the paths of
each avoid what those behind it add. -/
theorem applyInOrder_perm (distinct : (f.map (·.id)).Nodup) (hnamed : ∀ m ∈ ms, NamedModule m)
    (havoids : ns.Pairwise fun m later => AvoidsModule model later m) (hperm : ms.Perm ns)
    (hrun : applyInOrder model f ms = .ok g) :
    ∃ g', applyInOrder model f ns = .ok g' ∧ Rearranged NodeLabel.Apart g g' := by
  induction ns generalizing f ms g with
  | nil =>
    rw [hperm.eq_nil] at hrun
    exact ⟨g, hrun, .refl g⟩
  | cons n ns ih =>
    -- `n` avoids what all others add, so its turn may come first
    obtain ⟨hfirst, hbehind⟩ := List.pairwise_cons.1 havoids
    obtain ⟨pre, post, rfl⟩ := List.append_of_mem (hperm.mem_iff.2 List.mem_cons_self)
    have hpermrest : (pre ++ post).Perm ns :=
      (List.perm_cons n).1 (List.perm_middle.symm.trans hperm)
    have hpre : ∀ x ∈ pre, AvoidsModule model x n := by
      intro x hx
      exact hfirst x (hpermrest.mem_iff.1 (List.mem_append_left post hx))
    obtain ⟨g₁, hfront, hg₁⟩ := applyInOrder_to_front distinct hnamed hpre hrun
    obtain ⟨k, hn, hrest⟩ := applyInOrder_cons_eq_ok.1 hfront
    have hnamedrest : ∀ x ∈ pre ++ post, NamedModule x := by
      intro x hx
      exact hnamed x (List.perm_middle.symm.mem_iff.1 (List.mem_cons_of_mem n hx))
    obtain ⟨g', hrest', hg'⟩ := ih (map_id_of_applyModule hn ▸ distinct) hnamedrest hbehind
      hpermrest hrest
    exact ⟨g', applyInOrder_cons_eq_ok.2 ⟨k, hn, hrest'⟩, hg₁.trans hg'⟩

/-! ## Dependencies -/

/-- Every name on the path of an augment is that of a step, so the path passes through its
module. -/
theorem passesThrough_of_mem_path {ks : List Node.Name} {k : Node.Name}
    (hks : pathOf? model a = some ks) (hk : k ∈ ks) : PassesThrough model a k.1 := by
  obtain ⟨steps, hsteps, hnames⟩ := Option.bind_eq_some_iff.1 hks
  refine ⟨steps, hsteps, ?_⟩
  clear hks hsteps
  induction steps generalizing ks with
  | nil =>
    cases hnames
    cases hk
  | cons step steps ih =>
    obtain ⟨n, ks', hn, hks', rfl⟩ := Forest.stepNames?_cons_eq_some.1 hnames
    rcases List.mem_cons.1 hk with rfl | hk
    · exact ⟨step, List.mem_cons_self, hn⟩
    · obtain ⟨x, hx, hxk⟩ := ih hk hks'
      exact ⟨x, List.mem_cons_of_mem step hx, hxk⟩

theorem namedModule_of_mem (instantiated : Forest.ofModel model = .ok f₀)
    (hm : m ∈ pendingModules f₀) : NamedModule m := by
  obtain ⟨t, ht, rfl, _⟩ := mem_pendingModules_iff.1 hm
  intro a ha c hc
  exact (content_of_instantiated instantiated ht ha hc).2

/-- A module that does not depend on another one has paths that avoid what the other one adds: this
is nodes of the other module. -/
theorem avoidsModule_of_not_mem (instantiated : Forest.ofModel model = .ok f₀)
    (distinct : (f₀.map (·.id)).Nodup) (hp : p ∈ pendingModules f₀) (hq : q ∈ pendingModules f₀)
    (hne : p.id ≠ q.id) (hnot : p.id ∉ dependenciesOf model f₀ q.id) :
    AvoidsModule model p q := by
  obtain ⟨t, ht, rfl, _⟩ := mem_pendingModules_iff.1 hp
  obtain ⟨u, hu, rfl, _⟩ := mem_pendingModules_iff.1 hq
  intro a ha b hb ks hks k hk c hc hname
  have hmodule : k.1 = t.id := by
    rw [← hname]
    exact (content_of_instantiated instantiated ht ha hc).1
  have hpass : PassesThrough model b t.id := hmodule ▸ passesThrough_of_mem_path hks hk
  exact hnot ((mem_dependenciesOf_iff distinct).2
    ⟨⟨hne.symm, u, hu, rfl, b, hb, hpass⟩, List.mem_map_of_mem ht⟩)

/-- An order of the modules with augments in which each comes behind those on which it depends. -/
structure DependencyOrder (model : DeclaredModel) (f : Forest) (ms : List PendingModule) :
    Prop where
  perm : ms.Perm (pendingModules f)
  behind : ms.Pairwise fun m later => later.id ∉ dependenciesOf model f m.id

theorem DependencyOrder.avoids (instantiated : Forest.ofModel model = .ok f₀)
    (distinct : (f₀.map (·.id)).Nodup) (hms : DependencyOrder model f₀ ms) :
    ms.Pairwise fun m later => AvoidsModule model later m := by
  have hnodup := (hms.perm.map (·.id)).nodup_iff.2 (nodup_pendingModules distinct)
  rw [List.Nodup, List.pairwise_map] at hnodup
  refine (hms.behind.and hnodup).imp_of_mem ?_
  rintro m later hm hlater ⟨hnot, hne⟩
  exact avoidsModule_of_not_mem instantiated distinct (hms.perm.mem_iff.1 hlater)
    (hms.perm.mem_iff.1 hm) hne.symm hnot

/-- All dependency orders come out alike. -/
theorem DependencyOrder.alike (instantiated : Forest.ofModel model = .ok f₀)
    (distinct₀ : (f₀.map (·.id)).Nodup) (distinct : (f.map (·.id)).Nodup)
    (hms : DependencyOrder model f₀ ms) (hns : DependencyOrder model f₀ ns) :
    Alike (applyInOrder model f ms) (applyInOrder model f ns) := by
  have hnamed {ms : List PendingModule} (hms : DependencyOrder model f₀ ms) :
      ∀ m ∈ ms, NamedModule m := fun m hm =>
    namedModule_of_mem instantiated (hms.perm.mem_iff.1 hm)
  have hperm : ms.Perm ns := hms.perm.trans hns.perm.symm
  refine .of_ok (fun g hg => ?_) fun g hg => ?_
  · exact applyInOrder_perm distinct (hnamed hms) (hns.avoids instantiated distinct₀) hperm hg
  · obtain ⟨g', hg', _⟩ := applyInOrder_perm distinct (hnamed hns)
      (hms.avoids instantiated distinct₀) hperm.symm hg
    exact ⟨g', hg'⟩

/-- The place of a module in a list. -/
def placeOf (ms : List PendingModule) (id : SourceId) : Nat := (ms.map (·.id)).idxOf id

/-- In a dependency order, what a module depends on has an earlier place. -/
theorem DependencyOrder.placeOf_lt (distinct : (f.map (·.id)).Nodup)
    (hms : DependencyOrder model f ms) {v w : SourceId} (hv : v ∈ ms.map (·.id))
    (hw : w ∈ ms.map (·.id)) (hvw : w ∈ dependenciesOf model f v) :
    placeOf ms w < placeOf ms v := by
  have hne : v ≠ w := ((mem_dependenciesOf_iff distinct).1 hvw).1.1
  have hplaces : placeOf ms v ≠ placeOf ms w := by
    intro h
    exact hne ((List.idxOf_inj hv).1 h)
  by_contra hle
  have hlt : placeOf ms v < placeOf ms w := by omega
  have hbehind : (ms.map (·.id)).Pairwise fun a b => b ∉ dependenciesOf model f a :=
    List.pairwise_map.2 hms.behind
  have hnot := List.pairwise_iff_getElem.1 hbehind _ _ (List.idxOf_lt_length_of_mem hv)
    (List.idxOf_lt_length_of_mem hw) hlt
  rw [List.getElem_idxOf, List.getElem_idxOf] at hnot
  exact hnot hvw

/-- A module that depends on something has augments. -/
theorem mem_pendingModules_of_dependency (distinct : (f.map (·.id)).Nodup) {v w : SourceId}
    (hvw : w ∈ dependenciesOf model f v) : v ∈ (pendingModules f).map (·.id) := by
  obtain ⟨⟨_, t, ht, rfl, a, ha, _⟩, _⟩ := (mem_dependenciesOf_iff distinct).1 hvw
  exact List.mem_map.2 ⟨_, mem_pendingModules_iff.2 ⟨t, ht, rfl, List.ne_nil_of_mem ha⟩, rfl⟩

/-- Where there is a dependency order, there is no circle of dependencies. -/
theorem DependencyOrder.acyclic (distinct : (f.map (·.id)).Nodup)
    (hms : DependencyOrder model f ms) (v : SourceId) :
    ¬ TransGen (fun a b => b ∈ dependenciesOf model f a) v v := by
  have hmem {a b : SourceId} (hab : b ∈ dependenciesOf model f a) : a ∈ ms.map (·.id) :=
    (hms.perm.map (·.id)).mem_iff.2 (mem_pendingModules_of_dependency distinct hab)
  -- every step of a circle leads to an earlier place
  have hplaces : ∀ w, TransGen (fun a b => b ∈ dependenciesOf model f a) w v →
      v ∈ ms.map (·.id) → placeOf ms v < placeOf ms w := by
    intro w hwv hv
    induction hwv using TransGen.head_induction_on with
    | single h => exact hms.placeOf_lt distinct (hmem h) hv h
    | head h rest ih =>
      obtain ⟨_, hnext, _⟩ := TransGen.head'_iff.1 rest
      exact ih.trans (hms.placeOf_lt distinct (hmem h) (hmem hnext) h)
  intro hcycle
  obtain ⟨_, hnext, _⟩ := TransGen.head'_iff.1 hcycle
  exact (hplaces v hcycle (hmem hnext)).false

/-- Without a circle of dependencies, none is reported. -/
theorem checkCycles_of_acyclic (distinct : (f.map (·.id)).Nodup)
    (acyclic : ∀ v, ¬ TransGen (fun a b => b ∈ dependenciesOf model f a) v v) :
    checkCycles f (dependenciesOf model f) = .ok () := by
  cases h : checkCycles f (dependenciesOf model f) with
  | ok _ => rfl
  | error e =>
    have hreported : ∃ ids, checkCycles f (dependenciesOf model f)
        = .error (.mutualAugments ids) := by
      unfold checkCycles at h ⊢
      split at h
      · cases h
      · exact ⟨_, rfl⟩
    obtain ⟨v, _, hcycle⟩ :=
      (mutualAugments_iff distinct).1 ((checkCycles_eq_error_iff distinct).1 hreported)
    exact absurd (TransGen.mono (fun _ _ hedge => hedge.1) v v hcycle) (acyclic v)

/-- Where there is a dependency order, the augments of all modules are applied in such an order. -/
theorem DependencyOrder.exists_applyAll_eq (distinct : (f.map (·.id)).Nodup)
    (hms : DependencyOrder model f ms) :
    ∃ ns, DependencyOrder model f ns ∧ applyAll model f = applyInOrder model f ns := by
  have acyclic := hms.acyclic distinct
  refine ⟨_, ⟨flatten_rounds_perm acyclic _, pairwise_rounds _⟩, ?_⟩
  rw [applyAll_eq, checkCycles_of_acyclic distinct acyclic]
  exact applyRounds_eq acyclic f _

/-- No two trees of an instantiated model have one identifier. -/
theorem nodup_of_ofModel {order : Bool} {sources : List Source}
    (declared : DeclaredModel.ofSources order sources = .ok model)
    (instantiated : Forest.ofModel model = .ok f) : (f.map (·.id)).Nodup := by
  rw [map_id_of_ofModel instantiated]
  exact (DeclaredModel.nodup_ids declared).sublist (List.Sublist.map _ List.filter_sublist)

/-- Augments of independent modules commute. Two modules neither of which depends on the other can
have their turns in either order, with the same outcome for all trees: both orders fail, or both
give trees that differ in the order of siblings alone. So all orders of the modules in which each
comes behind those on which it depends have the same outcome, and applying all augments has it
too. -/
theorem independent_augments_commute {order : Bool} {sources : List Source}
    (declared : DeclaredModel.ofSources order sources = .ok model)
    (instantiated : Forest.ofModel model = .ok f₀) :
    (∀ p ∈ pendingModules f₀, ∀ q ∈ pendingModules f₀, p.id ≠ q.id →
        q.id ∉ dependenciesOf model f₀ p.id → p.id ∉ dependenciesOf model f₀ q.id →
        ∀ f : Forest, (f.map (·.id)).Nodup →
          Alike (applyModule model f p.augments >>= fun f => applyModule model f q.augments)
            (applyModule model f q.augments >>= fun f => applyModule model f p.augments))
      ∧ (∀ ms ns, DependencyOrder model f₀ ms → DependencyOrder model f₀ ns →
          ∀ f : Forest, (f.map (·.id)).Nodup →
            Alike (applyInOrder model f ms) (applyInOrder model f ns))
      ∧ ∀ ms, DependencyOrder model f₀ ms →
          Alike (applyAll model f₀) (applyInOrder model f₀ ms) := by
  have distinct₀ := nodup_of_ofModel declared instantiated
  refine ⟨?_, ?_, ?_⟩
  · intro p hp q hq hne hpq hqp f distinct
    have hnamedp := namedModule_of_mem instantiated hp
    have hnamedq := namedModule_of_mem instantiated hq
    refine .of_ok (fun g hg => ?_) fun g hg => ?_
    · obtain ⟨k, hk, hg⟩ := Result.bind_eq_ok.1 hg
      obtain ⟨k', g', hk', hg', hgg'⟩ := applyModule_exchange distinct hnamedp hnamedq
        (avoidsModule_of_not_mem instantiated distinct₀ hp hq hne hqp) hk hg
      exact ⟨g', Result.bind_eq_ok.2 ⟨k', hk', hg'⟩, hgg'⟩
    · obtain ⟨k, hk, hg⟩ := Result.bind_eq_ok.1 hg
      obtain ⟨k', g', hk', hg', _⟩ := applyModule_exchange distinct hnamedq hnamedp
        (avoidsModule_of_not_mem instantiated distinct₀ hq hp hne.symm hpq) hk hg
      exact ⟨g', Result.bind_eq_ok.2 ⟨k', hk', hg'⟩⟩
  · intro ms ns hms hns f distinct
    exact hms.alike instantiated distinct₀ distinct hns
  · intro ms hms
    obtain ⟨ns, hns, happly⟩ := hms.exists_applyAll_eq distinct₀
    rw [happly]
    exact hns.alike instantiated distinct₀ distinct₀ hms

/-- Two modules that add to the container of a third one can have their turns in either order. -/
theorem independent_augments_commute_two : ∃ f p q, Forest.ofModel augmentingModel = .ok f
    ∧ pendingModules f = [p, q] ∧ DependencyOrder augmentingModel f [q, p]
    ∧ (∃ g, applyAll augmentingModel f = .ok g)
    ∧ Alike (applyModule augmentingModel f p.augments
          >>= fun f => applyModule augmentingModel f q.augments)
        (applyModule augmentingModel f q.augments
          >>= fun f => applyModule augmentingModel f p.augments)
    ∧ Alike (applyAll augmentingModel f) (applyInOrder augmentingModel f [q, p]) := by
  have h : (do
      let f ← Forest.ofModel augmentingModel
      let g ← applyAll augmentingModel f
      return (decide (f.map (·.id)).Nodup, (pendingModules f).map (·.id),
        (pendingModules f).map fun m => dependenciesOf augmentingModel f m.id)
      : Result (Bool × List SourceId × List (List SourceId)))
      = .ok (true, [⟨"b", none⟩, ⟨"e", none⟩], [[⟨"a", none⟩], [⟨"a", none⟩]]) := by
    decide +kernel
  obtain ⟨f, instantiated, h⟩ := Result.bind_eq_ok.1 h
  obtain ⟨g, happly, h⟩ := Result.bind_eq_ok.1 h
  obtain ⟨hdistinct, h⟩ := Prod.mk.inj (Except.ok.inj h)
  obtain ⟨hids, hdependencies⟩ := Prod.mk.inj h
  obtain ⟨p, q, hpq⟩ := List.length_eq_two.1 ((List.length_map _).symm.trans (congrArg _ hids))
  simp only [hpq, List.map_cons, List.map_nil, List.cons.injEq, and_true] at hids hdependencies
  obtain ⟨hp, hq⟩ := hids
  obtain ⟨hpdeps, hqdeps⟩ := hdependencies
  have hpmem : p ∈ pendingModules f := by simp [hpq]
  have hqmem : q ∈ pendingModules f := by simp [hpq]
  have horder : DependencyOrder augmentingModel f [q, p] := by
    refine ⟨hpq ▸ .swap p q [], ?_⟩
    simp [hp, hqdeps]
  obtain ⟨hcommute, _, hall⟩ :=
    independent_augments_commute ofSources_augmentingModules instantiated
  refine ⟨f, p, q, instantiated, hpq, horder, ⟨g, happly⟩, ?_, hall [q, p] horder⟩
  exact hcommute p hpmem q hqmem (by simp [hp, hq]) (by simp [hpdeps, hq])
    (by simp [hqdeps, hp]) f (of_decide_eq_true hdistinct)

end Augmentation

end YangSchema
