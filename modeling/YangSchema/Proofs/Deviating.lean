import YangSchema.Proofs.AugmentFrame
import YangSchema.Proofs.Detached
import YangSchema.Proofs.KnownPaths
import YangSchema.Schema.Deviation

/-!
# What a deviation changes

The `deviate` statements of a deviation are taken from left to right, and so are the properties of
each of them. `Deviation.Edit` says of one property when it can be applied and what the children of
the target are then, and `Deviation.Edits` strings such edits together.

All that a deviation changes are the children of one node (`Forest.ChangesAt`): those of its target,
or those of the parent of the target if this is not supported. What is taken out does not come back
into the frozen module (`Deviation.Detaches`).
-/

namespace YangSchema

/-! ## Changing the children of a node -/

namespace Tree

variable {α : Type} {t : Tree α} {a : α} {cs ds : List (Tree α)} {p q : List Nat}

/-- Other children of a node change no label that is not below it. -/
theorem labelAt?_replace_of_not_below (hx : t.subtree? p = some ⟨a, cs⟩)
    (hq : ∀ i rest, q ≠ p ++ i :: rest) :
    (replace ⟨a, ds⟩ p t).labelAt? q = t.labelAt? q := by
  induction p generalizing t q with
  | nil =>
    cases hx
    cases q with
    | nil => rfl
    | cons i rest => exact absurd rfl (hq i rest)
  | cons i p ih =>
    obtain ⟨c, hc, hx⟩ := Option.bind_eq_some_iff.1 hx
    cases q with
    | nil => rfl
    | cons j q =>
      unfold labelAt?
      rw [replace, subtree?_cons, subtree?_cons]
      by_cases hij : i = j
      · subst hij
        rw [List.getElem?_modify_eq, hc]
        exact ih hx fun k rest h => hq k rest (by rw [h, List.cons_append])
      · rw [List.getElem?_modify_ne _ _ hij]

end Tree

namespace Forest

variable {f : Forest} {P : Place} {r x : Node} {ds : List Node}

/-- Two forests differ in the children of the node at a place, and in nothing else. -/
structure ChangesAt (f g : Forest) (P : Place) (cs ds : List Node) : Prop where
  trees : g.map (·.id) = f.map (·.id)
  node : ∃ l, f.node? P = some ⟨l, cs⟩ ∧ g.node? P = some ⟨l, ds⟩
  elsewhere : ∀ Q, (∀ i q, Q ≠ P.below (i :: q)) → g.labelAt? Q = f.labelAt? Q

theorem changesAt_update {change : Node → Node} (hr : f.root? P.module = some r)
    (hx : r.subtree? P.address = some x)
    (hchange : change r = Tree.replace ⟨x.label, ds⟩ P.address r) :
    ChangesAt f (f.update P.module change) P x.children ds := by
  obtain ⟨l, cs⟩ := x
  have hr' : (f.update P.module change).root? P.module
      = some (Tree.replace ⟨l, ds⟩ P.address r) := by
    rw [root?_update_self, hr, Option.map_some, hchange]
  refine ⟨map_id_update, ⟨l, ?_, ?_⟩, fun Q hQ => ?_⟩
  · exact Option.bind_eq_some_iff.2 ⟨r, hr, hx⟩
  · refine Option.bind_eq_some_iff.2 ⟨_, hr', Tree.subtree?_replace_self _ _ _ ?_⟩
    rw [hx]
    rfl
  · by_cases hm : P.module = Q.module
    · unfold labelAt? node?
      rw [← hm, hr', hr]
      refine Tree.labelAt?_replace_of_not_below hx fun i q haddress => hQ i q ?_
      obtain ⟨m, address⟩ := Q
      change P.module = m at hm
      change address = P.address ++ i :: q at haddress
      rw [← hm, haddress]
      rfl
    · exact labelAt?_update_of_ne hm

/-- A path leads to a node below a root. -/
theorem address_ne_nil_of_locate {model : DeclaredModel} {source : SourceId} {path : String}
    {t : Target} (ht : locate model f source path = .ok t) : t.address ≠ [] := by
  obtain ⟨_, _, _, _, _, _, _, hfollow, rfl⟩ := locate_eq_ok.1 ht
  obtain ⟨_, _, _, _, _, _, _, _, haddress⟩ := follow_cons_eq_ok.1 hfollow
  rw [← haddress]
  exact List.cons_ne_nil _ _

end Forest

/-- The argument of a `deviate` statement says which one it is. -/
theorem Deviate.ofString?_eq_some {text : String} {deviate : Deviate} :
    ofString? text = some deviate ↔ deviate.text = text := by
  constructor
  · intro h
    unfold ofString? at h
    have hfound := List.find?_some h
    exact beq_iff_eq.1 hfound
  · rintro rfl
    cases deviate <;> decide

namespace Deviation

variable {model : DeclaredModel} {f g : Forest} {d n property target target' : Node} {T K : Kind}
  {deviate : Deviate} {t : Target} {xs ys todo : List (Deviate × Node)} {cs ds es : List Node}

/-! ## One property -/

/-- Whether a node is of a kind and has the argument of a property. -/
def matchesProperty (K : Kind) (property n : Node) : Bool :=
  Node.is n K && n.label.argument == property.label.argument

/-- The children of a target of kind `T` before and after one property of a `deviate` statement. -/
inductive Edit (T : Kind) (property : Node) : Deviate → List Node → List Node → Prop where
  /-- What is not built in is passed over. -/
  | pass (deviate : Deviate) (cs : List Node) (extra : Node.kind? property = none) :
      Edit T property deviate cs cs
  /-- A property is added behind the children if the target may have it, and not if it may have one
  only and has one already. -/
  | add (K : Kind) (bound : Cardinality) (cs : List Node) (kind : Node.kind? property = some K)
      (allowed : T.substatement? K = some bound)
      (room : bound.isSingle = true → ∀ c ∈ cs, Node.is c K = false) :
      Edit T property .add cs (cs ++ [property])
  /-- A property replaces all those of its kind, of which there must be one. -/
  | replace (K : Kind) (cs : List Node) (kind : Node.kind? property = some K)
      (allowed : (T.substatement? K).isSome = true) (present : ∃ c ∈ cs, Node.is c K = true) :
      Edit T property .replace cs (cs.filter (fun c => !Node.is c K) ++ [property])
  /-- A property takes out the first one of its kind and argument, and there must be one. -/
  | delete (K : Kind) (cs : List Node) (kind : Node.kind? property = some K)
      (allowed : (T.substatement? K).isSome = true)
      (present : ∃ c ∈ cs, matchesProperty K property c = true) :
      Edit T property .delete cs (cs.eraseP (matchesProperty K property))

theorem added_eq_ok {bound : Cardinality} : added d K bound property target = .ok target'
    ↔ (bound.isSingle = true → ∀ c ∈ target.children, Node.is c K = false)
      ∧ target' = ⟨target.label, target.children ++ [property]⟩ := by
  have hroom : (bound.isSingle && target.children.any (Node.is · K)) = true
      ↔ ¬ (bound.isSingle = true → ∀ c ∈ target.children, Node.is c K = false) := by
    simp
  unfold added
  split
  · rename_i hfull
    exact iff_of_false (fun h => nomatch h) fun h => hroom.1 hfull h.1
  · rename_i hnot
    rw [hroom, not_not] at hnot
    rw [and_iff_right hnot, Except.ok.injEq]
    exact eq_comm

theorem replaced_eq_ok : replaced d K property target = .ok target'
    ↔ (∃ c ∈ target.children, Node.is c K = true)
      ∧ target' = ⟨target.label, target.children.filter (fun c => !Node.is c K) ++ [property]⟩ := by
  unfold replaced
  split
  · rename_i hpresent
    rw [and_iff_right (List.any_eq_true.1 hpresent), Except.ok.injEq]
    exact eq_comm
  · rename_i hnot
    exact iff_of_false (fun h => nomatch h) fun h => hnot (List.any_eq_true.2 h.1)

theorem deleted_eq_ok : deleted d K property target = .ok target'
    ↔ (∃ c ∈ target.children, matchesProperty K property c = true)
      ∧ target' = ⟨target.label, target.children.eraseP (matchesProperty K property)⟩ := by
  unfold deleted
  dsimp only
  split
  · rename_i place hplace
    change target.children.findIdx? (matchesProperty K property) = some place at hplace
    have hpresent : target.children.any (matchesProperty K property) = true :=
      List.findIdx?_isSome.symm.trans (congrArg Option.isSome hplace)
    rw [List.eraseP_eq_eraseIdx, hplace, and_iff_right (List.any_eq_true.1 hpresent),
      Except.ok.injEq]
    exact eq_comm
  · rename_i hplace
    change target.children.findIdx? (matchesProperty K property) = none at hplace
    refine iff_of_false (fun h => nomatch h) fun ⟨⟨c, hc, hmatches⟩, _⟩ => ?_
    rw [List.findIdx?_eq_none_iff.1 hplace c hc] at hmatches
    cases hmatches

/-- A property is applied exactly if there is such an edit, and this is what it does. -/
theorem applyProperty_eq_ok (hdeviate : deviate ≠ .notSupported) :
    applyProperty d deviate T target property = .ok target'
      ↔ ∃ cs, Edit T property deviate target.children cs ∧ target' = ⟨target.label, cs⟩ := by
  unfold applyProperty
  cases hkind : Node.kind? property with
  | none =>
    obtain ⟨label, children⟩ := target
    constructor
    · intro h
      cases h
      exact ⟨_, .pass _ _ hkind, rfl⟩
    · rintro ⟨_, hedit, rfl⟩
      cases hedit <;> simp_all
  | some K =>
    dsimp only
    cases hallowed : T.substatement? K with
    | none =>
      refine iff_of_false (fun h => nomatch h) ?_
      rintro ⟨_, hedit, _⟩
      cases hedit <;> simp_all
    | some bound =>
      have hsome : (T.substatement? K).isSome = true := by rw [hallowed]; rfl
      cases deviate with
      | notSupported => exact absurd rfl hdeviate
      | add =>
        rw [added_eq_ok]
        constructor
        · rintro ⟨hroom, rfl⟩
          exact ⟨_, .add K bound _ hkind hallowed hroom, rfl⟩
        · rintro ⟨_, hedit, rfl⟩
          cases hedit <;> simp_all
      | replace =>
        rw [replaced_eq_ok]
        constructor
        · rintro ⟨hpresent, rfl⟩
          exact ⟨_, .replace K _ hkind hsome hpresent, rfl⟩
        · rintro ⟨_, hedit, rfl⟩
          cases hedit <;> simp_all
      | delete =>
        rw [deleted_eq_ok]
        constructor
        · rintro ⟨hpresent, rfl⟩
          exact ⟨_, .delete K _ hkind hsome hpresent, rfl⟩
        · rintro ⟨_, hedit, rfl⟩
          cases hedit <;> simp_all

/-! ## All properties -/

/-- The properties of `deviate` statements from left to right, each with what is done with it. -/
def properties (xs : List (Deviate × Node)) : List (Deviate × Node) :=
  xs.flatMap fun x => x.2.children.map (x.1, ·)

/-- The children of a target of kind `T` before and after the properties of a list. -/
inductive Edits (T : Kind) : List (Deviate × Node) → List Node → List Node → Prop where
  | nil (cs : List Node) : Edits T [] cs cs
  | cons {step : Deviate × Node} {rest : List (Deviate × Node)} {cs ds es : List Node}
      (hfirst : Edit T step.2 step.1 cs ds) (hrest : Edits T rest ds es) :
      Edits T (step :: rest) cs es

theorem applyProperties_eq_foldlM (xs : List (Deviate × Node)) (target : Node) :
    applyProperties d T target xs
      = (properties xs).foldlM (fun t step => applyProperty d step.1 T t step.2) target := by
  induction xs generalizing target with
  | nil => rfl
  | cons x xs ih =>
    show (x.2.children.foldlM (applyProperty d x.1 T) target >>= fun t => applyProperties d T t xs)
      = (x.2.children.map (x.1, ·) ++ properties xs).foldlM _ target
    rw [List.foldlM_append, List.foldlM_map]
    congr 1
    funext t
    exact ih t

/-- The properties of `deviate` statements are applied exactly if there are such edits. -/
theorem applyProperties_eq_ok (hxs : ∀ x ∈ xs, x.1 ≠ .notSupported) :
    applyProperties d T target xs = .ok target'
      ↔ ∃ cs, Edits T (properties xs) target.children cs ∧ target' = ⟨target.label, cs⟩ := by
  have hsteps : ∀ step ∈ properties xs, step.1 ≠ .notSupported := by
    intro step hstep
    obtain ⟨x, hx, hstep⟩ := List.mem_flatMap.1 hstep
    obtain ⟨_, _, rfl⟩ := List.mem_map.1 hstep
    exact hxs x hx
  rw [applyProperties_eq_foldlM]
  generalize properties xs = todo at hsteps
  induction todo generalizing target with
  | nil =>
    obtain ⟨label, children⟩ := target
    constructor
    · intro h
      cases h
      exact ⟨_, .nil _, rfl⟩
    · rintro ⟨_, ⟨⟩, rfl⟩
      rfl
  | cons step todo ih =>
    obtain ⟨hstep, htodo⟩ := List.forall_mem_cons.1 hsteps
    rw [List.foldlM_cons, Result.bind_eq_ok]
    constructor
    · rintro ⟨_, hfirst, hrest⟩
      obtain ⟨cs, hedit, rfl⟩ := (applyProperty_eq_ok hstep).1 hfirst
      obtain ⟨es, hedits, rfl⟩ := (ih htodo).1 hrest
      exact ⟨es, .cons hedit hedits, rfl⟩
    · rintro ⟨es, hedits, rfl⟩
      obtain _ | ⟨hedit, hedits⟩ := hedits
      exact ⟨_, (applyProperty_eq_ok hstep).2 ⟨_, hedit, rfl⟩, (ih htodo).2 ⟨es, hedits, rfl⟩⟩

/-! ## One deviation -/

/-- A deviation with a target succeeds exactly if it takes out the target and does nothing else, or
if its properties can be edited in turn. -/
theorem apply_eq_ok (ht : Deviation.target model f d = .ok t) (hT : Node.kind? t.node = some T) :
    apply model f d = .ok g ↔ ∃ xs, deviates d = .ok xs
      ∧ ((∃ n, xs = [(.notSupported, n)]) ∧ g = f.remove t
        ∨ (∀ x ∈ xs, x.1 ≠ .notSupported) ∧ ∃ cs, Edits T (properties xs) t.node.children cs
          ∧ g = f.replace t ⟨t.node.label, cs⟩) := by
  unfold apply
  rw [Result.bind_eq_of_ok ht, hT]
  dsimp only
  rw [Result.bind_eq_ok]
  apply exists_congr
  intro xs
  apply and_congr_right
  intro _
  split
  · -- one of them is `not-supported`, so nothing is edited
    rename_i hany
    obtain ⟨x, hx, hnot⟩ := List.any_eq_true.1 hany
    have hnot := of_decide_eq_true hnot
    rw [or_iff_left fun h => h.1 x hx hnot]
    split
    · rename_i hmore
      refine iff_of_false (fun h => nomatch h) ?_
      rintro ⟨⟨n, rfl⟩, _⟩
      exact absurd hmore (Nat.lt_irrefl 1)
    · rename_i hone
      have hlone : ∃ n, xs = [(.notSupported, n)] := by
        match xs, hx, hone with
        | [y], hx, _ =>
          rw [List.mem_singleton] at hx
          exact ⟨y.2, by rw [← hnot, hx]⟩
        | _ :: _ :: _, _, hone => exact absurd (by simp) hone
      rw [and_iff_right hlone]
      show Except.ok _ = Except.ok g ↔ _
      rw [Except.ok.injEq]
      exact eq_comm
  · rename_i hnone
    have hxs : ∀ x ∈ xs, x.1 ≠ .notSupported := by
      intro x hx hnot
      exact hnone (List.any_eq_true.2 ⟨x, hx, decide_eq_true hnot⟩)
    rw [or_iff_right, and_iff_right hxs, Result.bind_eq_ok]
    · constructor
      · rintro ⟨_, hrun, hreturn⟩
        obtain ⟨cs, hedits, rfl⟩ := (applyProperties_eq_ok hxs).1 hrun
        exact ⟨cs, hedits, (Except.ok.inj hreturn).symm⟩
      · rintro ⟨cs, hedits, rfl⟩
        exact ⟨_, (applyProperties_eq_ok hxs).2 ⟨cs, hedits, rfl⟩, rfl⟩
    · rintro ⟨⟨n, rfl⟩, _⟩
      exact hxs _ List.mem_cons_self rfl

/-! ## What stays -/

/-- A property leaves the children that there were in their order, and adds itself behind them. -/
theorem Edit.exists_append (h : Edit T property deviate (cs ++ ds) es) : ∃ kept added,
    es = kept ++ added ∧ kept.Sublist cs ∧ added.Sublist (ds ++ [property]) := by
  generalize hall : cs ++ ds = all at h
  cases h with
  | pass =>
    exact ⟨cs, ds, hall.symm, .refl cs, List.sublist_append_left ds _⟩
  | add K bound =>
    refine ⟨cs, ds ++ [property], ?_, .refl cs, .refl _⟩
    rw [← hall, List.append_assoc]
  | replace K =>
    refine ⟨cs.filter (fun c => !Node.is c K), ds.filter (fun c => !Node.is c K) ++ [property],
      ?_, List.filter_sublist, List.filter_sublist.append_right _⟩
    rw [← hall, List.filter_append, List.append_assoc]
  | delete K =>
    rw [← hall, List.eraseP_append]
    split
    · exact ⟨_, ds, rfl, List.eraseP_sublist, List.sublist_append_left ds _⟩
    · exact ⟨cs, _, rfl, .refl cs, List.eraseP_sublist.trans (List.sublist_append_left ds _)⟩

/-- Properties leave the children that there were in their order, and add some of themselves behind
them. -/
theorem Edits.exists_append (h : Edits T todo (cs ++ ds) es) : ∃ kept added,
    es = kept ++ added ∧ kept.Sublist cs ∧ added.Sublist (ds ++ todo.map Prod.snd) := by
  generalize hall : cs ++ ds = all at h
  induction h generalizing cs ds with
  | nil =>
    rw [List.map_nil, List.append_nil]
    exact ⟨cs, ds, hall.symm, .refl cs, .refl ds⟩
  | @cons step rest _ _ _ hfirst _ ih =>
    subst hall
    obtain ⟨cs', ds', rfl, hcs, hds⟩ := hfirst.exists_append
    obtain ⟨kept, added, rfl, hkept, hadded⟩ := ih rfl
    refine ⟨kept, added, rfl, hkept.trans hcs, hadded.trans ?_⟩
    rw [List.map_cons, List.append_cons]
    exact hds.append_right _

/-- The target of a deviation stands below another node. -/
theorem exists_parent_of_target (ht : Deviation.target model f d = .ok t) :
    ∃ r parent p i, f.root? t.module = some r ∧ t.address = p ++ [i]
      ∧ r.subtree? p = some parent ∧ parent.children[i]? = some t.node := by
  have hne := Forest.address_ne_nil_of_locate (target_eq_ok.1 ht)
  obtain ⟨step, steps, m, r, _, _, hr, hfollow, rfl⟩ := Forest.locate_eq_ok.1 (target_eq_ok.1 ht)
  have hsub := Forest.subtree?_of_follow hfollow
  obtain hnil | ⟨p, i, haddress⟩ := List.eq_nil_or_concat' t.address
  · exact absurd hnil hne
  · rw [haddress, Tree.subtree?_append] at hsub
    obtain ⟨parent, hparent, hchild⟩ := Option.bind_eq_some_iff.1 hsub
    obtain ⟨c, hc, hself⟩ := Option.bind_eq_some_iff.1 hchild
    cases hself
    exact ⟨r, parent, p, i, hr, haddress, hparent, hc⟩

theorem changesAt_replace (ht : Deviation.target model f d = .ok t) (cs : List Node) :
    f.ChangesAt (f.replace t ⟨t.node.label, cs⟩) ⟨t.module, t.address⟩ t.node.children cs := by
  obtain ⟨r, hr, hsub⟩ := Option.bind_eq_some_iff.1 (Forest.node?_of_locate (target_eq_ok.1 ht))
  exact Forest.changesAt_update (P := ⟨t.module, t.address⟩) hr hsub rfl

/-- A target is taken out of the tree of its module. -/
structure Detaches (model : DeclaredModel) (f g : Forest) (t : Target) : Prop where
  /-- Its parent has the other children in their order, and nothing else changes. -/
  parent : ∃ P i cs, Place.mk t.module t.address = P.below [i] ∧ cs[i]? = some t.node
    ∧ f.ChangesAt g P cs (cs.eraseIdx i)
  /-- The frozen module lists what it listed before, without the target and what stands below it. In
  an arena that keeps the tree, the cell of the target is detached; it is not copied, nor are the
  cells below it, and this stays so whatever is done with the arena later. -/
  frozen : ∃ r r', f.root? t.module = some r ∧ g.root? t.module = some r'
    ∧ (∃ pre post, (Module.ofTree model ⟨t.module, r⟩).nodes.map (·.label.toNodeLabel)
        = pre ++ t.node.preorder ++ post
      ∧ (Module.ofTree model ⟨t.module, r'⟩).nodes.map (·.label.toNodeLabel) = pre ++ post)
    ∧ ∀ (A : Arena) (L : Layout), A.Reached → A.LaysOut 0 L → L.node = r →
      ∃ s : Layout, L.subtree? t.address = some s ∧ s.node = t.node
        ∧ (A.detach s.slot).freeze (NodeData.qnameOf model)
          = some (Module.ofTree model ⟨t.module, r'⟩).nodes
        ∧ ∀ B, Relation.ReflTransGen Arena.Step (A.detach s.slot) B → ∀ slots rows,
          B.freeze (NodeData.qnameOf model) = some rows → B.Copies slots rows →
          ∀ j ∈ s.slots, j ∉ slots

theorem detaches_remove (ht : Deviation.target model f d = .ok t) :
    Detaches model f (f.remove t) t := by
  obtain ⟨r, parent, p, i, hr, haddress, hparent, hchild⟩ := exists_parent_of_target ht
  have hnode : r.subtree? t.address = some t.node := by
    rw [haddress, Tree.subtree?_append, hparent, Option.bind_some, Tree.subtree?_cons, hchild]
    rfl
  have hne : t.address ≠ [] := by
    rw [haddress]
    simp
  have hr' : (f.remove t).root? t.module = some (Tree.remove t.address r) := by
    unfold Forest.remove
    rw [Forest.root?_update_self, hr, Option.map_some]
  refine ⟨⟨⟨t.module, p⟩, i, parent.children, ?_, hchild, ?_⟩, r, _, hr, hr', ?_, ?_⟩
  · rw [haddress]
    rfl
  · refine Forest.changesAt_update (P := ⟨t.module, p⟩) hr hparent ?_
    rw [haddress]
    exact Tree.remove_concat hparent i
  · obtain ⟨pre, post, hbefore, hafter⟩ := Tree.exists_preorder_remove hne hnode
    refine ⟨pre, post, ?_, ?_⟩
    · exact (Module.lists_of_nodes_eq rfl).labels.trans hbefore
    · exact (Module.lists_of_nodes_eq rfl).labels.trans hafter
  · rintro A L hreached hlays rfl
    have hforest := hreached.isForest
    obtain ⟨x, hx, rfl⟩ := Layout.exists_of_subtree?_node hparent
    rw [Layout.children_node, List.getElem?_map] at hchild
    obtain ⟨s, hs, hsnode⟩ := Option.map_eq_some_iff.1 hchild
    refine ⟨s, ?_, hsnode, ?_, fun B hsteps slots rows _ hcopies j hj hcopied => ?_⟩
    · rw [haddress, Tree.subtree?_append, hx, Option.bind_some, Tree.subtree?_cons, hs]
      rfl
    · rw [(hlays.detach hforest hx hs).freeze_eq, Layout.node_remove, haddress]
      rfl
    · exact hlays.not_reaches_of_steps hforest hx hs hsteps hj ((hcopies.mem_iff j).1 hcopied)

/-- Each `deviate` statement does what its argument says. -/
theorem deviates_eq_ok : deviates d = .ok xs ↔ xs.map Prod.snd = Node.childrenOfKind d .deviate
    ∧ ∀ x ∈ xs, x.2.label.argument.getD "" = x.1.text := by
  unfold deviates
  rw [Result.mapM_eq_ok]
  generalize Node.childrenOfKind d .deviate = ns
  induction xs generalizing ns with
  | nil =>
    rw [List.forall₂_nil_right_iff]
    simp [eq_comm]
  | cons x xs ih =>
    rw [List.forall₂_cons_right_iff, List.forall_mem_cons, List.map_cons]
    constructor
    · rintro ⟨n, ns, hn, hns, rfl⟩
      obtain ⟨rfl, htexts⟩ := (ih ns).1 hns
      dsimp only at hn
      split at hn
      · rename_i deviate hread
        cases hn
        exact ⟨rfl, (Deviate.ofString?_eq_some.1 hread).symm, htexts⟩
      · cases hn
    · rintro ⟨rfl, htext, htexts⟩
      refine ⟨_, _, ?_, (ih _).2 ⟨rfl, htexts⟩, rfl⟩
      dsimp only
      rw [Deviate.ofString?_eq_some.2 htext.symm]

/-- A property that is applied stands in a `deviate` statement. -/
theorem exists_deviate_of_mem_properties (h : deviates d = .ok xs) {step : Deviate × Node}
    (hstep : step ∈ properties xs) : ∃ n ∈ Node.childrenOfKind d .deviate, step.2 ∈ n.children := by
  obtain ⟨x, hx, hstep⟩ := List.mem_flatMap.1 hstep
  obtain ⟨property, hproperty, rfl⟩ := List.mem_map.1 hstep
  refine ⟨x.2, ?_, hproperty⟩
  rw [← (deviates_eq_ok.1 h).1]
  exact List.mem_map_of_mem hx

/-- Whether the first deviation of a model is applied to its instantiated modules and meets a
condition: on its target, on its `deviate` statements and on what becomes of the modules. -/
def firstApplied (model : DeclaredModel)
    (meets : Target → List (Deviate × Node) → Forest → Bool) : Result Bool := do
  let f ← Forest.ofModel model
  match f.flatMap (·.statements .deviation) with
  | [] => return false
  | d :: _ => return meets (← Deviation.target model f d) (← deviates d) (← apply model f d)

theorem exists_of_firstApplied {meets : Target → List (Deviate × Node) → Forest → Bool}
    (h : firstApplied model meets = .ok true) : ∃ f d t xs g, Forest.ofModel model = .ok f
      ∧ d ∈ f.flatMap (·.statements .deviation) ∧ Deviation.target model f d = .ok t
      ∧ deviates d = .ok xs ∧ apply model f d = .ok g ∧ meets t xs g = true := by
  obtain ⟨f, instantiated, h⟩ := Result.bind_eq_ok.1 h
  split at h
  · cases h
  · rename_i d _ hds
    obtain ⟨t, ht, h⟩ := Result.bind_eq_ok.1 h
    obtain ⟨xs, hxs, h⟩ := Result.bind_eq_ok.1 h
    obtain ⟨g, happly, h⟩ := Result.bind_eq_ok.1 h
    refine ⟨f, d, t, xs, g, instantiated, ?_, ht, hxs, happly, Except.ok.inj h⟩
    rw [hds]
    exact List.mem_cons_self

/-- **A deviation edits its target and nothing else.**

* Its `deviate` statements are read from left to right, and each does what its argument says.
* If one of them says that the target is not supported, it must be the only one, and the target is
  taken out. Otherwise the deviation succeeds exactly if all properties of all `deviate` statements
  can be applied, one after the other, to the children of the target.
* Then no node has changed but the target, which has the same label; of its children some are left,
  in their order, and some of the properties stand behind them.
* A target that is taken out is not in the frozen module, nor is anything below it, and in an arena
  none of this comes back. -/
theorem deviation_edits_target (ht : Deviation.target model f d = .ok t)
    (hT : Node.kind? t.node = some T) :
    (∀ xs, deviates d = .ok xs ↔ xs.map Prod.snd = Node.childrenOfKind d .deviate
        ∧ ∀ x ∈ xs, x.2.label.argument.getD "" = x.1.text)
    ∧ (∀ g, apply model f d = .ok g ↔ ∃ xs, deviates d = .ok xs
        ∧ ((∃ n, xs = [(.notSupported, n)]) ∧ g = f.remove t
          ∨ (∀ x ∈ xs, x.1 ≠ .notSupported) ∧ ∃ cs, Edits T (properties xs) t.node.children cs
            ∧ g = f.replace t ⟨t.node.label, cs⟩))
    ∧ (∀ todo cs, Edits T todo t.node.children cs →
        f.ChangesAt (f.replace t ⟨t.node.label, cs⟩) ⟨t.module, t.address⟩ t.node.children cs
        ∧ ∃ kept added, cs = kept ++ added ∧ kept.Sublist t.node.children
          ∧ added.Sublist (todo.map Prod.snd))
    ∧ Detaches model f (f.remove t) t := by
  refine ⟨fun _ => deviates_eq_ok, fun _ => apply_eq_ok ht hT, fun todo cs hedits => ?_,
    detaches_remove ht⟩
  refine ⟨changesAt_replace ht cs, ?_⟩
  rw [← List.append_nil t.node.children] at hedits
  exact hedits.exists_append

/-- A leaf, and a deviation that adds, replaces and deletes its properties. -/
def propertiesModule : List Source :=
  [.bareModule "a" [.bare "leaf" "x" [.bare "type" "string" [], .bare "units" "s" []],
    .bare "deviation" "/x" [.bare "deviate" "add" [.bare "default" "y" []],
      .bare "deviate" "replace" [.bare "type" "binary" []],
      .bare "deviate" "delete" [.bare "units" "s" []]]]]

/-- Its declared model. -/
def propertiesModel : DeclaredModel := .ofLinkage Augmentation.loneLinkage propertiesModule

/-- The leaf has the default value and the new type behind the deviation, and no units. -/
theorem deviation_edits_target_three :
    DeclaredModel.ofSources true propertiesModule = .ok propertiesModel
    ∧ ∃ f d t cs, Forest.ofModel propertiesModel = .ok f
      ∧ Deviation.target propertiesModel f d = .ok t ∧ Node.kind? t.node = some .leaf
      ∧ apply propertiesModel f d = .ok (f.replace t ⟨t.node.label, cs⟩)
      ∧ f.ChangesAt (f.replace t ⟨t.node.label, cs⟩) ⟨t.module, t.address⟩ t.node.children cs
      ∧ cs.map (·.label.argument) = [some "y", some "binary"]
      ∧ Detaches propertiesModel f (f.remove t) t := by
  obtain ⟨hdeclare, h⟩ : DeclaredModel.canDeclare Augmentation.loneLinkage propertiesModule = true
    ∧ firstApplied propertiesModel (fun t xs g => decide (Node.kind? t.node = some .leaf
      ∧ xs.map Prod.fst = [.add, .replace, .delete]
      ∧ (g.node? ⟨t.module, t.address⟩).map (·.children.map (·.label.argument))
        = some [some "y", some "binary"])) = .ok true := by
    decide +kernel
  obtain ⟨f, d, t, xs, g, instantiated, _, ht, hxs, happly, h⟩ := exists_of_firstApplied h
  obtain ⟨hT, hops, harguments⟩ := of_decide_eq_true h
  obtain ⟨_, hiff, hchanges, hdetaches⟩ := deviation_edits_target ht hT
  refine ⟨DeclaredModel.ofSources_eq_ofLinkage (by cbv) rfl (by cbv) hdeclare, ?_⟩
  obtain ⟨ys, hys, ⟨⟨n, rfl⟩, _⟩ | ⟨_, cs, hedits, rfl⟩⟩ := (hiff g).1 happly
  · cases hxs.symm.trans hys
    cases hops
  · have hchange := (hchanges _ cs hedits).1
    obtain ⟨_, _, hnew⟩ := hchange.node
    rw [hnew] at harguments
    exact ⟨f, d, t, cs, instantiated, ht, hT, happly, hchange, Option.some.inj harguments,
      hdetaches⟩

end Deviation

end YangSchema
