import YangSchema.Proofs.Declared
import YangSchema.Proofs.Instantiated

/-!
# The order of augments

What comes of trying the augments of a module again and again comes of applying them in some order
(`exists_applyInTurn_eq`). Conversely, where they can be applied in some order, `applyModule`
succeeds, with trees that differ in the order of siblings alone (`applyModule_of_applyInTurn`). So
it does not matter in which order a module states its augments (`augment_order_irrelevant`).

The second fact rests on one exchange: where the paths of two augments both lead somewhere, it does
not matter which one is applied first (`applyOne_exchange`). A path that leads somewhere keeps doing
so (`Resolves.of_applyOne`), so that an augment that can be applied later, and finds its target now,
can be applied now (`applyInTurn_to_front`).
-/

namespace YangSchema

open Forest (Rearranged)

namespace Augmentation

variable {model : DeclaredModel} {f f' g h : Forest} {a b c : Node} {as bs xs ys : List Node}

/-- The content of an augment consists of nodes with names in schema paths. -/
def Named (a : Node) : Prop := ∀ c ∈ content a, Node.isSchemaNode c = true

/-- A copy of the content has the name of what it is a copy of. -/
theorem exists_content_of_mem_copies (hc : c ∈ copies a) :
    ∃ d ∈ content a, nameOf d = nameOf c ∧ Node.isSchemaNode d = Node.isSchemaNode c := by
  obtain ⟨d, hd, rfl⟩ := List.mem_map.1 hc
  obtain ⟨label, children⟩ := d
  exact ⟨_, hd, rfl, rfl⟩

theorem map_nameOf_copies : (copies a).map nameOf = (content a).map nameOf := by
  unfold copies
  rw [List.map_map]
  apply List.map_congr_left
  intro n _
  obtain ⟨label, children⟩ := n
  rfl

/-- Copies of named content are children with names. -/
theorem filter_copies (hnamed : Named a) : (copies a).filter Node.isSchemaNode = copies a := by
  rw [List.filter_eq_self]
  intro c hc
  obtain ⟨d, hd, _, hschema⟩ := exists_content_of_mem_copies hc
  rw [← hschema]
  exact hnamed d hd

/-! ## One augment -/

/-- A path that leads somewhere keeps doing so. -/
theorem Resolves.of_applyOne (distinct : (f.map (·.id)).Nodup)
    (ha : applyOne model f a = .ok g) (hb : Resolves model f b) : Resolves model g b := by
  obtain ⟨ks, _, _, _, _, rfl⟩ := (applyOne_eq_ok distinct).1 ha
  obtain ⟨ls, n, hls, hn⟩ := hb
  obtain ⟨n', hn', _⟩ := Forest.descend?_grow (copies a) ks hn
  exact ⟨ls, n', hls, hn'⟩

/-- What has been applied had a path that leads somewhere. -/
theorem resolves_of_applyOne (distinct : (f.map (·.id)).Nodup)
    (ha : applyOne model f a = .ok g) : Resolves model f a := by
  obtain ⟨ks, n, hks, hn, _⟩ := (applyOne_eq_ok distinct).1 ha
  exact ⟨ks, n, hks, hn⟩

/-- A node that admits content besides other nodes admits it without them. -/
theorem Admits.of_label {n n' : Node} (hadmits : Admits a n') (hlabel : n'.label = n.label)
    (hfree : ∀ c ∈ content a, nameOf c ∉ Node.childNames n) : Admits a n := by
  have haug := hadmits.augmentable
  rw [Node.kind?, hlabel] at haug
  exact ⟨haug, hadmits.distinct, hfree⟩

/-- An augment that finds its target before another one is applied can change places with it. -/
theorem applyOne_exchange (distinct : (f.map (·.id)).Nodup) (hnamed : Named a)
    (ha : applyOne model f a = .ok g) (hb : applyOne model g b = .ok h)
    (hresolves : Resolves model f b) :
    ∃ g' h', applyOne model f b = .ok g' ∧ applyOne model g' a = .ok h'
      ∧ Rearranged NodeLabel.Apart h h' := by
  obtain ⟨ks, n, hks, hn, hadmits, rfl⟩ := (applyOne_eq_ok distinct).1 ha
  obtain ⟨ls, m', hls, hm', hadmits', rfl⟩ := (applyOne_eq_ok (by simpa using distinct)).1 hb
  obtain ⟨ls', m, hls', hm⟩ := hresolves
  cases hls.symm.trans hls'
  -- the target of `b` has the names that it had, and those of `a` if the two targets are one
  obtain ⟨m'', hm'', hmlabel, hmnames⟩ := Forest.descend?_grow (copies a) ks hm
  cases hm'.symm.trans hm''
  rw [filter_copies hnamed, map_nameOf_copies] at hmnames
  have hb : Admits b m := by
    refine hadmits'.of_label hmlabel fun d hd hmem => hadmits'.free d hd ?_
    rw [hmnames]
    exact List.mem_append_left _ hmem
  have hapart : ls = ks → ∀ c ∈ content a, ∀ d ∈ content b, nameOf c ≠ nameOf d := by
    intro hkl c hc d hd heq
    apply hadmits'.free d hd
    rw [hmnames, if_pos hkl, ← heq]
    exact List.mem_append_right _ (List.mem_map_of_mem hc)
  -- likewise for the target of `a` when `b` comes first
  obtain ⟨n', hn', hnlabel, hnnames⟩ := Forest.descend?_grow (copies b) ls hn
  have ha : Admits a n' := by
    refine hadmits.of_label hnlabel.symm fun c hc hmem => ?_
    rw [hnnames, List.mem_append] at hmem
    rcases hmem with hmem | hmem
    · exact hadmits.free c hc hmem
    · by_cases hkl : ks = ls
      · rw [if_pos hkl] at hmem
        obtain ⟨x, hx, hxc⟩ := List.mem_map.1 hmem
        obtain ⟨d, hd, hdx, _⟩ := exists_content_of_mem_copies (List.mem_filter.1 hx).1
        exact hapart hkl.symm c hc d hd (hdx.trans hxc).symm
      · rw [if_neg hkl] at hmem
        cases hmem
  refine ⟨_, _, (applyOne_eq_ok distinct).2 ⟨ls, m, hls, hm, hb, rfl⟩,
    (applyOne_eq_ok (by simpa using distinct)).2 ⟨ks, n', hks, hn', ha, rfl⟩, ?_⟩
  apply Forest.grow_comm distinct hm hn
  intro hkl y hy x hx heq
  obtain ⟨c, hc, hcx, _⟩ := exists_content_of_mem_copies hx
  obtain ⟨d, hd, hdy, _⟩ := exists_content_of_mem_copies hy
  exact hapart hkl c hc d hd (hcx.trans (heq.symm.trans hdy.symm))

/-- Paths that lead somewhere do so in rearranged trees. -/
theorem Resolves.of_rearranged (hf : Rearranged NodeLabel.Apart f f')
    (ha : Resolves model f a) : Resolves model f' a := by
  obtain ⟨ks, n, hks, hn⟩ := ha
  obtain ⟨n', hn', _⟩ := Forest.descend?_rearranged hf hn
  exact ⟨ks, n', hks, hn'⟩

/-- What can be applied to trees can be applied to rearranged trees. -/
theorem applyOne_rearranged (distinct : (f.map (·.id)).Nodup)
    (hf : Rearranged NodeLabel.Apart f f') (ha : applyOne model f a = .ok g) :
    ∃ g', applyOne model f' a = .ok g' ∧ Rearranged NodeLabel.Apart g g' := by
  obtain ⟨ks, n, hks, hn, hadmits, rfl⟩ := (applyOne_eq_ok distinct).1 ha
  obtain ⟨n', hn', hnn'⟩ := Forest.descend?_rearranged hf hn
  have hadmits' : Admits a n' := by
    apply hadmits.of_label hnn'.label
    intro c hc hmem
    exact hadmits.free c hc ((Node.childNames_perm hnn').mem_iff.2 hmem)
  have distinct' : (f'.map (·.id)).Nodup := hf.map_id ▸ distinct
  exact ⟨_, (applyOne_eq_ok distinct').2 ⟨ks, n', hks, hn', hadmits', rfl⟩,
    Forest.grow_rearranged hf⟩

/-! ## Augments in turn -/

theorem Resolves.of_applyInTurn (distinct : (f.map (·.id)).Nodup)
    (has : applyInTurn model f as = .ok g) (hb : Resolves model f b) : Resolves model g b := by
  induction as generalizing f with
  | nil =>
    cases has
    exact hb
  | cons a as ih =>
    obtain ⟨f', ha, has⟩ := applyInTurn_cons_eq_ok.1 has
    exact ih (map_id_of_applyOne ha ▸ distinct) has (hb.of_applyOne distinct ha)

theorem applyInTurn_rearranged (distinct : (f.map (·.id)).Nodup)
    (hf : Rearranged NodeLabel.Apart f f') (has : applyInTurn model f as = .ok g) :
    ∃ g', applyInTurn model f' as = .ok g' ∧ Rearranged NodeLabel.Apart g g' := by
  induction as generalizing f f' with
  | nil =>
    cases has
    exact ⟨f', rfl, hf⟩
  | cons a as ih =>
    obtain ⟨k, ha, has⟩ := applyInTurn_cons_eq_ok.1 has
    obtain ⟨k', ha', hk⟩ := applyOne_rearranged distinct hf ha
    obtain ⟨g', has', hg⟩ := ih (map_id_of_applyOne ha ▸ distinct) hk has
    exact ⟨g', applyInTurn_cons_eq_ok.2 ⟨k', ha', has'⟩, hg⟩

/-- An augment that is applied later, but finds its target now, can be applied now. -/
theorem applyInTurn_to_front (distinct : (f.map (·.id)).Nodup) (hnamed : ∀ x ∈ xs, Named x)
    (hrun : applyInTurn model f (xs ++ a :: ys) = .ok g) (hresolves : Resolves model f a) :
    ∃ g', applyInTurn model f (a :: (xs ++ ys)) = .ok g' ∧ Rearranged NodeLabel.Apart g g' := by
  induction xs generalizing f with
  | nil => exact ⟨g, hrun, .refl g⟩
  | cons x xs ih =>
    obtain ⟨k, hx, hrun⟩ := applyInTurn_cons_eq_ok.1 hrun
    have distinct' : (k.map (·.id)).Nodup := map_id_of_applyOne hx ▸ distinct
    have hnamed' := fun y hy => hnamed y (List.mem_cons_of_mem x hy)
    -- behind `x` it is applied next, and then it changes places with `x`
    obtain ⟨g', hrun', hg⟩ := ih distinct' hnamed' hrun (hresolves.of_applyOne distinct hx)
    obtain ⟨l, ha, hrest⟩ := applyInTurn_cons_eq_ok.1 hrun'
    obtain ⟨k', l', ha', hx', hl⟩ :=
      applyOne_exchange distinct (hnamed x List.mem_cons_self) hx ha hresolves
    have distinct'' : (l.map (·.id)).Nodup := map_id_of_applyOne ha ▸ distinct'
    obtain ⟨g'', hrest', hg'⟩ := applyInTurn_rearranged distinct'' hl hrest
    refine ⟨g'', ?_, hg.trans hg'⟩
    exact applyInTurn_cons_eq_ok.2 ⟨k', ha', applyInTurn_cons_eq_ok.2 ⟨l', hx', hrest'⟩⟩

/-- An augment that is one of those that are applied, and that finds its target now, can be applied
now; the others can be applied behind it. -/
theorem exists_applied_first (distinct : (f.map (·.id)).Nodup) (hnamed : ∀ x ∈ xs, Named x)
    (hmem : a ∈ xs) (hrun : applyInTurn model f xs = .ok g) (hresolves : Resolves model f a) :
    ∃ (zs : List Node) (f' g' : Forest), xs.Perm (a :: zs) ∧ (∀ z ∈ zs, Named z)
      ∧ applyOne model f a = .ok f' ∧ (f'.map (·.id)).Nodup
      ∧ applyInTurn model f' zs = .ok g' ∧ Rearranged NodeLabel.Apart g g' := by
  obtain ⟨pre, post, rfl⟩ := List.append_of_mem hmem
  have hpre : ∀ x ∈ pre, Named x := fun x hx => hnamed x (List.mem_append_left _ hx)
  obtain ⟨g', hfront, hg⟩ := applyInTurn_to_front distinct hpre hrun hresolves
  obtain ⟨f', ha, hrest⟩ := applyInTurn_cons_eq_ok.1 hfront
  refine ⟨pre ++ post, f', g', List.perm_middle, fun z hz => ?_, ha,
    map_id_of_applyOne ha ▸ distinct, hrest, hg⟩
  exact hnamed z (List.perm_middle.mem_iff.2 (List.mem_cons_of_mem a hz))

/-! ## Trying again -/

variable {left : List (Node × PathFault)}

/-- A sweep applies an augment, or passes it over with the fault of its path. -/
theorem sweep_cons_eq_ok : sweep model f (a :: as) = .ok (g, left)
    ↔ (∃ f', applyOne model f a = .ok f' ∧ sweep model f' as = .ok (g, left))
      ∨ ∃ fault rest, attempt model f a = .ok (.error fault) ∧ sweep model f as = .ok (g, rest)
        ∧ (a, fault) :: rest = left := by
  simp only [applyOne_eq_ok_iff_attempt]
  rw [sweep]
  cases attempt model f a with
  | error e => simp [bind, Except.bind]
  | ok tried =>
    cases tried with
    | ok f' => simp [bind, Except.bind]
    | error fault =>
      cases sweep model f as with
      | error e => simp [bind, Except.bind]
      | ok p => simp [bind, Except.bind, pure, Except.pure, Prod.ext_iff]

/-- A sweep fails when applying an augment fails other than for its path. -/
theorem sweep_cons_eq_error {e : Error} (hsweep : sweep model f (a :: as) = .error e) :
    attempt model f a = .error e
      ∨ (∃ f', applyOne model f a = .ok f' ∧ sweep model f' as = .error e)
      ∨ sweep model f as = .error e := by
  simp only [applyOne_eq_ok_iff_attempt]
  rw [sweep] at hsweep
  rcases Result.bind_eq_error.1 hsweep with ha | ⟨tried, ha, hrest⟩
  · exact .inl ha
  · cases tried with
    | ok f' => exact .inr (.inl ⟨f', ha, hrest⟩)
    | error fault =>
      rcases Result.bind_eq_error.1 hrest with hrest | ⟨_, _, hreturn⟩
      · exact .inr (.inr hrest)
      · cases hreturn

/-- What a sweep does is applying those augments, in turn, that it does not leave. -/
theorem exists_applyInTurn_of_sweep (hsweep : sweep model f as = .ok (g, left)) :
    ∃ xs : List Node, (xs ++ left.map (·.1)).Perm as ∧ applyInTurn model f xs = .ok g := by
  induction as generalizing f left with
  | nil =>
    cases hsweep
    exact ⟨[], .nil, rfl⟩
  | cons a as ih =>
    rcases sweep_cons_eq_ok.1 hsweep with ⟨f', ha, hrest⟩ | ⟨fault, rest, _, hrest, rfl⟩
    · obtain ⟨xs, hperm, hrun⟩ := ih hrest
      exact ⟨a :: xs, hperm.cons a, applyInTurn_cons_eq_ok.2 ⟨f', ha, hrun⟩⟩
    · obtain ⟨xs, hperm, hrun⟩ := ih hrest
      exact ⟨xs, List.perm_middle.trans (hperm.cons a), hrun⟩

/-- A sweep that fails does so as applying the augments in some order fails. -/
theorem exists_applyInTurn_of_sweep_error {e : Error} (hsweep : sweep model f as = .error e) :
    ∃ xs : List Node, xs.Perm as ∧ applyInTurn model f xs = .error e := by
  induction as generalizing f with
  | nil => cases hsweep
  | cons a as ih =>
    rcases sweep_cons_eq_error hsweep with ha | ⟨f', ha, hrest⟩ | hrest
    · refine ⟨a :: as, .refl _, ?_⟩
      rw [applyInTurn_cons, applyOne, ha]
      rfl
    · obtain ⟨xs, hperm, hrun⟩ := ih hrest
      refine ⟨a :: xs, hperm.cons a, ?_⟩
      rw [applyInTurn_cons, ha]
      exact hrun
    · -- what is passed over now may come last: the run has failed before
      obtain ⟨xs, hperm, hrun⟩ := ih hrest
      refine ⟨xs ++ [a], (List.perm_append_singleton a xs).trans (hperm.cons a), ?_⟩
      rw [applyInTurn_append, hrun]
      rfl

/-- A sweep that leaves everything changes nothing, and the faults are those of the paths. -/
theorem attempt_of_sweep_idle (hsweep : sweep model f as = .ok (g, left))
    (hidle : as.length ≤ left.length) :
    g = f ∧ left.map (·.1) = as ∧ ∀ p ∈ left, attempt model f p.1 = .ok (.error p.2) := by
  induction as generalizing left with
  | nil =>
    cases hsweep
    exact ⟨rfl, rfl, fun p hp => absurd hp List.not_mem_nil⟩
  | cons a as ih =>
    rcases sweep_cons_eq_ok.1 hsweep with ⟨f', _, hrest⟩ | ⟨fault, rest, ha, hrest, rfl⟩
    · have hle := length_sweep_le hrest
      rw [List.length_cons] at hidle
      omega
    · obtain ⟨hsame, hleft, hfaults⟩ := ih hrest (Nat.le_of_succ_le_succ hidle)
      exact ⟨hsame, congrArg (a :: ·) hleft, List.forall_mem_cons.2 ⟨ha, hfaults⟩⟩

/-- Whatever comes of applying the augments of a module comes of applying them in some order. -/
theorem exists_applyInTurn_eq (model : DeclaredModel) (f : Forest) (as : List Node) :
    ∃ xs : List Node, xs.Perm as ∧ applyInTurn model f xs = applyModule model f as := by
  fun_induction applyModule model f as with
  | case1 f as e hsweep => exact exists_applyInTurn_of_sweep_error hsweep
  | case2 f as g hsweep =>
    obtain ⟨xs, hperm, hrun⟩ := exists_applyInTurn_of_sweep hsweep
    rw [List.map_nil, List.append_nil] at hperm
    exact ⟨xs, hperm, hrun⟩
  | case3 f as g a fault rest hsweep hless ih =>
    obtain ⟨xs, hperm, hrun⟩ := exists_applyInTurn_of_sweep hsweep
    obtain ⟨ys, hperm', hrun'⟩ := ih
    refine ⟨xs ++ ys, (hperm'.append_left xs).trans hperm, ?_⟩
    rw [applyInTurn_append, hrun]
    exact hrun'
  | case4 f as g a fault rest hsweep hless =>
    -- the last sweep has changed nothing: the first augment fails as it has done there
    have hidle : as.length ≤ ((a, fault) :: rest).length := Nat.le_of_not_lt hless
    obtain ⟨rfl, hleft, hfaults⟩ := attempt_of_sweep_idle hsweep hidle
    refine ⟨as, .refl as, ?_⟩
    rw [← hleft, List.map_cons, applyInTurn_cons, applyOne,
      hfaults (a, fault) List.mem_cons_self]
    rfl

/-- Where a sweep can apply all augments in some order, and others besides, it leaves augments that
can be applied in some order with these others. -/
theorem sweep_of_applyInTurn (bs : List Node) (distinct : (f.map (·.id)).Nodup)
    (hnamed : ∀ x ∈ xs, Named x) (hperm : xs.Perm (bs ++ as))
    (hrun : applyInTurn model f xs = .ok g) :
    ∃ k left, sweep model f as = .ok (k, left) ∧ ∃ ys : List Node,
      ys.Perm (bs ++ left.map (·.1)) ∧ ∃ g', applyInTurn model k ys = .ok g'
        ∧ Rearranged NodeLabel.Apart g g' := by
  -- `bs` are those that the sweep has passed over; what is still to be applied stays applicable
  induction as generalizing f bs xs g with
  | nil => exact ⟨f, [], rfl, xs, hperm, g, hrun, .refl g⟩
  | cons a as ih =>
    have hmem : a ∈ xs := hperm.mem_iff.2 (List.mem_append_right bs List.mem_cons_self)
    by_cases hresolves : Resolves model f a
    · obtain ⟨zs, f', g₁, hzs, hnamedrest, ha, distinct', hrest, hg₁⟩ :=
        exists_applied_first distinct hnamed hmem hrun hresolves
      have hpermrest : zs.Perm (bs ++ as) := by
        have hmiddle := (hzs.symm.trans hperm).trans List.perm_middle
        exact (List.perm_cons a).1 hmiddle
      obtain ⟨k, left, hsweep, ys, hys, g', hrun', hg'⟩ :=
        ih bs distinct' hnamedrest hpermrest hrest
      refine ⟨k, left, ?_, ys, hys, g', hrun', hg₁.trans hg'⟩
      exact sweep_cons_eq_ok.2 (.inl ⟨f', ha, hsweep⟩)
    · obtain ⟨fault, ha⟩ := (attempt_eq_fault_iff distinct).2 hresolves
      have hmoved : xs.Perm ((bs ++ [a]) ++ as) := by
        rw [List.append_assoc]
        exact hperm
      obtain ⟨k, left, hsweep, ys, hys, g', hrun', hg'⟩ :=
        ih (bs ++ [a]) distinct hnamed hmoved hrun
      refine ⟨k, (a, fault) :: left, ?_, ys, ?_, g', hrun', hg'⟩
      · exact sweep_cons_eq_ok.2 (.inr ⟨fault, left, ha, hsweep, rfl⟩)
      · rw [List.append_assoc] at hys
        exact hys

/-- Where augments can be applied in some order, a sweep applies one of them. -/
theorem length_left_lt (distinct : (f.map (·.id)).Nodup) (hne : as ≠ []) (hperm : xs.Perm as)
    (hrun : applyInTurn model f xs = .ok g) (hsweep : sweep model f as = .ok (h, left)) :
    left.length < as.length := by
  by_contra hidle
  obtain ⟨rfl, hleft, hfaults⟩ := attempt_of_sweep_idle hsweep (Nat.le_of_not_lt hidle)
  cases xs with
  | nil => exact hne hperm.symm.eq_nil
  | cons x xs =>
    -- the first one of the order finds its target at once
    obtain ⟨_, hx, _⟩ := applyInTurn_cons_eq_ok.1 hrun
    have hmem : x ∈ left.map (·.1) := hleft ▸ hperm.mem_iff.1 List.mem_cons_self
    obtain ⟨p, hp, rfl⟩ := List.mem_map.1 hmem
    exact (attempt_eq_fault_iff distinct).1 ⟨p.2, hfaults p hp⟩ (resolves_of_applyOne distinct hx)

/-- Behind a sweep that has applied something, what it has left is tried again. -/
theorem applyModule_of_sweep (hsweep : sweep model f as = .ok (g, left))
    (hless : left.length < as.length) :
    applyModule model f as = applyModule model g (left.map (·.1)) := by
  fun_cases applyModule model f as with
  | case1 e herror =>
    rw [hsweep] at herror
    cases herror
  | case2 g' hdone =>
    rw [hsweep] at hdone
    cases hdone
    rw [List.map_nil, applyModule]
    rfl
  | case3 g' a fault rest hagain _ =>
    rw [hsweep] at hagain
    cases hagain
    rfl
  | case4 g' a fault rest hidle hnot =>
    rw [hsweep] at hidle
    cases hidle
    exact absurd hless hnot

/-- Augments that can be applied in some order are applied by trying again and again. -/
theorem applyModule_of_applyInTurn (distinct : (f.map (·.id)).Nodup)
    (hnamed : ∀ a ∈ as, Named a) (hperm : xs.Perm as) (hrun : applyInTurn model f xs = .ok g) :
    ∃ g', applyModule model f as = .ok g' ∧ Rearranged NodeLabel.Apart g g' := by
  -- each sweep leaves fewer augments, which can be applied in some order again
  induction hn : as.length using Nat.strongRecOn generalizing f as xs g with
  | ind n ih =>
    have hnamed' : ∀ x ∈ xs, Named x := fun x hx => hnamed x (hperm.mem_iff.1 hx)
    obtain ⟨k, left, hsweep, ys, hys, g₁, hrest, hg₁⟩ :=
      sweep_of_applyInTurn [] distinct hnamed' hperm hrun
    rcases eq_or_ne as [] with rfl | hne
    · rw [hperm.eq_nil] at hrun
      cases hrun
      exact ⟨f, by rw [applyModule]; rfl, .refl f⟩
    · have hless := length_left_lt distinct hne hperm hrun hsweep
      obtain ⟨zs, hzs, happlied⟩ := exists_applyInTurn_of_sweep hsweep
      have distinct' : (k.map (·.id)).Nodup := map_id_of_applyInTurn happlied ▸ distinct
      have hnamedleft : ∀ x ∈ left.map (·.1), Named x := by
        intro x hx
        exact hnamed x (hzs.mem_iff.1 (List.mem_append_right zs hx))
      obtain ⟨g', hg', hg₁g'⟩ := ih _ (by rwa [List.length_map, ← hn]) distinct' hnamedleft hys
        hrest rfl
      exact ⟨g', (applyModule_of_sweep hsweep hless).trans hg', hg₁.trans hg₁g'⟩

/-! ## Targets that are missing -/

/-- Applying an augment fails because its path leads nowhere. -/
def IsPathError (e : Error) : Prop := ∃ a fault, e = error a (.path fault)

theorem not_isPathError {fault : AugmentFault} (hfault : ∀ p, fault ≠ .path p) :
    ¬ IsPathError (error a fault) := by
  rintro ⟨b, p, h⟩
  injection h with _ _ _ h
  exact hfault p h

theorem not_isPathError_of_attempt {e : Error} (ha : attempt model f a = .error e) :
    ¬ IsPathError e := by
  unfold attempt at ha
  split at ha
  · cases ha
  · rcases Result.bind_eq_error.1 ha with ha | ⟨_, _, hreturn⟩
    · unfold splice at ha
      split at ha
      · cases ha
        exact not_isPathError fun p => by simp
      · split at ha
        · cases ha
          exact not_isPathError fun p => by simp
        · cases ha
    · cases hreturn

theorem not_isPathError_of_sweep {e : Error} (hsweep : sweep model f as = .error e) :
    ¬ IsPathError e := by
  induction as generalizing f with
  | nil => cases hsweep
  | cons a as ih =>
    rcases sweep_cons_eq_error hsweep with ha | ⟨_, _, hrest⟩ | hrest
    · exact not_isPathError_of_attempt ha
    · exact ih hrest
    · exact ih hrest

theorem isPathError_of_not_resolves (distinct : (f.map (·.id)).Nodup)
    (hnot : ¬ Resolves model f a) : ∃ e, applyOne model f a = .error e ∧ IsPathError e := by
  obtain ⟨fault, ha⟩ := (attempt_eq_fault_iff distinct).2 hnot
  refine ⟨error a (.path fault), ?_, a, fault, rfl⟩
  rw [applyOne, ha]
  rfl

/-- Where a module is given up for a missing target, some of its augments have been applied, and the
paths of the others lead nowhere. -/
theorem exists_unresolved (distinct : (f.map (·.id)).Nodup) {e : Error}
    (hmodule : applyModule model f as = .error e) (he : IsPathError e) :
    ∃ xs ys k, (xs ++ ys).Perm as ∧ ys ≠ [] ∧ applyInTurn model f xs = .ok k
      ∧ ∀ y ∈ ys, ¬ Resolves model k y := by
  fun_induction applyModule model f as with
  | case1 f as e' hsweep =>
    cases hmodule
    exact absurd he (not_isPathError_of_sweep hsweep)
  | case2 => cases hmodule
  | case3 f as h a fault rest hsweep hless ih =>
    obtain ⟨xs, hperm, hrun⟩ := exists_applyInTurn_of_sweep hsweep
    obtain ⟨xs', ys, k, hperm', hne, hrun', hnot⟩ :=
      ih (map_id_of_applyInTurn hrun ▸ distinct) hmodule
    refine ⟨xs ++ xs', ys, k, ?_, hne, applyInTurn_append_eq_ok.2 ⟨h, hrun, hrun'⟩, hnot⟩
    rw [List.append_assoc]
    exact (hperm'.append_left xs).trans hperm
  | case4 f as h a fault rest hsweep hless =>
    obtain ⟨rfl, hleft, hfaults⟩ := attempt_of_sweep_idle hsweep (Nat.le_of_not_lt hless)
    refine ⟨[], as, h, .refl as, ?_, rfl, fun y hy => ?_⟩
    · rw [← hleft]
      exact List.cons_ne_nil _ _
    · rw [← hleft] at hy
      obtain ⟨p, hp, rfl⟩ := List.mem_map.1 hy
      exact (attempt_eq_fault_iff distinct).1 ⟨p.2, hfaults p hp⟩

/-- Where some augments can be applied, and then the paths of the others lead nowhere, every order
comes to an augment whose path leads nowhere. -/
theorem isPathError_of_unresolved {k : Forest} {zs : List Node} (distinct : (f.map (·.id)).Nodup)
    (hnamed : ∀ x ∈ xs, Named x) (hne : ys ≠ []) (hrun : applyInTurn model f xs = .ok k)
    (hnot : ∀ y ∈ ys, ¬ Resolves model k y) (hperm : zs.Perm (xs ++ ys)) :
    ∃ e, applyInTurn model f zs = .error e ∧ IsPathError e := by
  induction zs generalizing f xs k with
  | nil => exact absurd (List.append_eq_nil_iff.1 hperm.symm.eq_nil).2 hne
  | cons z zs ih =>
    by_cases hresolves : Resolves model f z
    · -- it is one of those that can be applied, and that can be done at once
      have hmem : z ∈ xs := by
        rcases List.mem_append.1 (hperm.mem_iff.1 List.mem_cons_self) with hz | hz
        · exact hz
        · exact absurd (hresolves.of_applyInTurn distinct hrun) (hnot z hz)
      obtain ⟨others, f', k', hothers, hnamedrest, hz, distinct', hrest, hk⟩ :=
        exists_applied_first distinct hnamed hmem hrun hresolves
      have hpermrest : zs.Perm (others ++ ys) :=
        (List.perm_cons z).1 (hperm.trans (hothers.append_right ys))
      have hnot' : ∀ y ∈ ys, ¬ Resolves model k' y := by
        intro y hy hy'
        exact hnot y hy (hy'.of_rearranged (hk.symm fun _ _ => Ne.symm))
      obtain ⟨e, herror, he⟩ := ih distinct' hnamedrest hrest hnot' hpermrest
      refine ⟨e, ?_, he⟩
      rw [applyInTurn_cons, hz]
      exact herror
    · obtain ⟨e, hz, he⟩ := isPathError_of_not_resolves distinct hresolves
      refine ⟨e, ?_, he⟩
      rw [applyInTurn_cons, hz]
      rfl

/-! ## Any order -/

/-- Two ways of changing trees come out alike: both fail, or both give trees that differ in nothing
but the order of siblings, of which only those with different names have changed places. -/
inductive Alike : Result Forest → Result Forest → Prop where
  | ok {f g : Forest} : Rearranged NodeLabel.Apart f g → Alike (.ok f) (.ok g)
  | error {e e' : Error} : Alike (.error e) (.error e')

theorem Alike.of_ok {x y : Result Forest}
    (hxy : ∀ f, x = .ok f → ∃ g, y = .ok g ∧ Rearranged NodeLabel.Apart f g)
    (hyx : ∀ g, y = .ok g → ∃ f, x = .ok f) : Alike x y := by
  cases x with
  | ok f =>
    obtain ⟨g, rfl, hfg⟩ := hxy f rfl
    exact .ok hfg
  | error e =>
    cases y with
    | ok g =>
      obtain ⟨f, hf⟩ := hyx g rfl
      cases hf
    | error e' => exact .error

/-- The augments of a module can be applied alike in whatever order they are stated. -/
theorem applyModule_perm (distinct : (f.map (·.id)).Nodup) (hnamed : ∀ a ∈ as, Named a)
    (hperm : bs.Perm as) (hmodule : applyModule model f as = .ok g) :
    ∃ g', applyModule model f bs = .ok g' ∧ Rearranged NodeLabel.Apart g g' := by
  obtain ⟨xs, hxs, hrun⟩ := exists_applyInTurn_eq model f as
  have hnamed' : ∀ b ∈ bs, Named b := fun b hb => hnamed b (hperm.mem_iff.1 hb)
  exact applyModule_of_applyInTurn distinct hnamed' (hxs.trans hperm.symm) (hrun.trans hmodule)

/-- Within a module the order of the augments does not matter. For all trees and every list of
augments of an instantiated module, any other order of the list succeeds where this one does, with
trees that differ in the order of siblings alone. A missing target is reported only where every
order comes to one. -/
theorem augment_order_irrelevant {f₀ : Forest} {t : ModuleTree}
    (instantiated : Forest.ofModel model = .ok f₀) (ht : t ∈ f₀)
    (has : ∀ a ∈ as, a ∈ t.statements .augment) (distinct : (f.map (·.id)).Nodup)
    (hperm : bs.Perm as) :
    Alike (applyModule model f as) (applyModule model f bs)
      ∧ ((∃ xs : List Node, xs.Perm as ∧ ∀ a fault,
            applyInTurn model f xs ≠ .error (error a (.path fault))) →
          ∀ a fault, applyModule model f as ≠ .error (error a (.path fault))) := by
  have hnamed : ∀ a ∈ as, Named a := fun a ha c hc =>
    (content_of_instantiated instantiated ht (has a ha) hc).2
  refine ⟨.of_ok ?_ ?_, ?_⟩
  · intro g hg
    exact applyModule_perm distinct hnamed hperm hg
  · intro g hg
    have hnamed' : ∀ b ∈ bs, Named b := fun b hb => hnamed b (hperm.mem_iff.1 hb)
    obtain ⟨g', hg', _⟩ := applyModule_perm distinct hnamed' hperm.symm hg
    exact ⟨g', hg'⟩
  · -- had the module been given up for a missing target, this order would have come to one
    rintro ⟨zs, hzs, hnever⟩ a fault hmodule
    obtain ⟨xs, ys, k, hsplit, hne, hrun, hnot⟩ :=
      exists_unresolved distinct hmodule ⟨a, fault, rfl⟩
    have hnamed' : ∀ x ∈ xs, Named x := fun x hx =>
      hnamed x (hsplit.mem_iff.1 (List.mem_append_left ys hx))
    obtain ⟨_, herror, b, fault', rfl⟩ := isPathError_of_unresolved distinct hnamed' hne hrun hnot
      (hzs.trans hsplit.symm)
    exact hnever b fault' herror

/-! ### Examples -/

/-- A module with a container, a module that adds a leaf to what it adds itself, and one that adds
another leaf to the container. -/
def augmentingModules : List Source :=
  [.bareModule "a" [.bare "container" "c" []],
    .bareModule "b" [.bare "import" "a" [.bare "prefix" "p" []],
      .bare "augment" "/p:c/d" [.bare "leaf" "x" [.bare "type" "string" []]],
      .bare "augment" "/p:c" [.bare "container" "d" []]],
    .bareModule "e" [.bare "import" "a" [.bare "prefix" "p" []],
      .bare "augment" "/p:c" [.bare "leaf" "y" [.bare "type" "string" []]]]]

/-- How the three are linked. -/
def augmentingLinkage : Linkage :=
  let a : SourceId := ⟨"a", none⟩
  let b : SourceId := ⟨"b", none⟩
  let e : SourceId := ⟨"e", none⟩
  let l : Location := .synthetic "bare"
  { sources := [
      ⟨⟨a, .module "a", .v1, "a", [], [], l⟩, a, [("a", a)]⟩,
      ⟨⟨b, .module "b", .v1, "b", [⟨"a", "p", none, l⟩], [], l⟩, b, [("b", b), ("p", a)]⟩,
      ⟨⟨e, .module "e", .v1, "e", [⟨"a", "p", none, l⟩], [], l⟩, e, [("e", e), ("p", a)]⟩]
    families := [(a, [a]), (b, [b]), (e, [e])]
    graph := ⟨[a, b, e], [⟨b, a, .imports⟩, ⟨e, a, .imports⟩]⟩ }

/-- Their declared model. -/
def augmentingModel : DeclaredModel := .ofLinkage augmentingLinkage augmentingModules

theorem ofSources_augmentingModules :
    DeclaredModel.ofSources true augmentingModules = .ok augmentingModel :=
  DeclaredModel.ofSources_eq_ofLinkage (by cbv) rfl (by cbv) (by decide +kernel)

/-- A module that states its augments in an order in which they cannot be applied in turn succeeds,
as does the other order. -/
theorem augment_order_irrelevant_chain : ∃ f t, Forest.ofModel augmentingModel = .ok f ∧ t ∈ f
    ∧ (∃ g, applyModule augmentingModel f (t.statements .augment) = .ok g)
    ∧ (applyInTurn augmentingModel f (t.statements .augment)).toBool = false
    ∧ Alike (applyModule augmentingModel f (t.statements .augment))
        (applyModule augmentingModel f (t.statements .augment).reverse) := by
  have h : (do
      let f ← Forest.ofModel augmentingModel
      let t := (f[1]?).getD default
      let _ ← applyModule augmentingModel f (t.statements .augment)
      return (f[1]?.isSome, decide (f.map (·.id)).Nodup,
        (applyInTurn augmentingModel f (t.statements .augment)).toBool)
      : Result (Bool × Bool × Bool)) = .ok (true, true, false) := by
    decide +kernel
  obtain ⟨f, instantiated, h⟩ := Result.bind_eq_ok.1 h
  obtain ⟨g, happly, h⟩ := Result.bind_eq_ok.1 h
  obtain ⟨hsome, h⟩ := Prod.mk.inj (Except.ok.inj h)
  obtain ⟨hdistinct, hfails⟩ := Prod.mk.inj h
  obtain ⟨t, ht⟩ := Option.isSome_iff_exists.1 hsome
  rw [ht, Option.getD_some] at happly hfails
  have hmem : t ∈ f := List.mem_of_getElem? ht
  refine ⟨f, t, instantiated, hmem, ⟨g, happly⟩, hfails, ?_⟩
  exact (augment_order_irrelevant instantiated hmem (fun _ ha => ha)
    (of_decide_eq_true hdistinct) (List.reverse_perm _)).1

end Augmentation

end YangSchema
