import YangSchema.Proofs.Deviating

/-!
# The properties of a deviated node

What the properties of a deviation do to the children of its target can be told for each kind by
itself: a property of another kind changes nothing, and one of the kind adds itself, takes the place
of all children of the kind, or takes out one of them (`Deviation.KindEdit`).

So a `deviate replace` with several properties of a kind leaves the last of them only, since each of
them takes the place of those before it (`Deviation.replace_keeps_last`,
`Deviation.replace_drops_first`). And while no property can bring in more children than the grammar
allows, one can take out the `type` that a leaf must have (`Deviation.deviated_fits_iff`,
`Deviation.delete_takes_type`).
-/

namespace YangSchema

namespace Deviation

variable {model : DeclaredModel} {f g : Forest} {d s property : Node} {T K : Kind}
  {deviate : Deviate} {bound : Cardinality} {todo before after : List (Deviate × Node)}
  {cs ds es xs : List Node}

/-! ## One kind -/

/-- The children of a kind before and after a property of this kind, where the target may have
`bound` of them. -/
inductive KindEdit (bound : Cardinality) (property : Node) :
    Deviate → List Node → List Node → Prop where
  | add (xs : List Node) (room : bound.isSingle = true → xs = []) :
      KindEdit bound property .add xs (xs ++ [property])
  | replace (xs : List Node) (present : xs ≠ []) : KindEdit bound property .replace xs [property]
  | delete (pre : List Node) (x : Node) (post : List Node) :
      KindEdit bound property .delete (pre ++ x :: post) (pre ++ post)

/-- What is removed for one reason does not count for another. -/
theorem filter_eraseP_of_disjoint {p q : Node → Bool} (h : ∀ c, p c = true → q c = false)
    (cs : List Node) : (cs.eraseP p).filter q = cs.filter q := by
  rcases List.exists_or_eq_self_of_eraseP p cs with hself | ⟨c, pre, post, _, hc, rfl, herased⟩
  · rw [hself]
  · rw [herased, List.filter_append, List.filter_append, List.filter_cons_of_neg]
    rw [h c hc]
    exact Bool.false_ne_true

theorem is_iff : Node.is property K = true ↔ Node.kind? property = some K := beq_iff_eq

/-- No node is of two kinds. -/
theorem is_eq_false_of_ne {K' : Kind} (hne : K' ≠ K) {c : Node} (hc : Node.is c K' = true) :
    Node.is c K = false := by
  rw [Bool.eq_false_iff]
  intro hcK
  exact hne (Option.some.inj ((is_iff.1 hc).symm.trans (is_iff.1 hcK)))

/-- A property of another kind changes nothing. -/
theorem Edit.filter_of_not_is (h : Edit T property deviate cs ds)
    (hK : Node.is property K = false) : ds.filter (Node.is · K) = cs.filter (Node.is · K) := by
  have hne {K' : Kind} (hkind : Node.kind? property = some K') : K' ≠ K := by
    rintro rfl
    rw [is_iff.2 hkind] at hK
    cases hK
  have hself : [property].filter (Node.is · K) = [] := by
    rw [List.filter_cons_of_neg (by rw [hK]; exact Bool.false_ne_true), List.filter_nil]
  cases h with
  | pass => rfl
  | add K' bound _ hkind => rw [List.filter_append, hself, List.append_nil]
  | replace K' _ hkind =>
    rw [List.filter_append, hself, List.append_nil, List.filter_filter]
    refine List.filter_congr fun c _ => ?_
    cases hc : Node.is c K' with
    | false => simp
    | true => simp [is_eq_false_of_ne (hne hkind) hc]
  | delete K' _ hkind =>
    refine filter_eraseP_of_disjoint (fun c hc => ?_) cs
    exact is_eq_false_of_ne (hne hkind) (Bool.and_eq_true_iff.1 hc).1

/-- A property of a kind that the target may have. -/
theorem Edit.kindEdit (h : Edit T property deviate cs ds) (hK : Node.is property K = true) :
    ∃ bound, T.substatement? K = some bound
      ∧ KindEdit bound property deviate (cs.filter (Node.is · K)) (ds.filter (Node.is · K)) := by
  have hkind := is_iff.1 hK
  have hself : [property].filter (Node.is · K) = [property] := by
    rw [List.filter_cons_of_pos (p := (Node.is · K)) hK, List.filter_nil]
  cases h with
  | pass _ _ hextra =>
    rw [hkind] at hextra
    cases hextra
  | add K' bound _ hkind' hallowed hroom =>
    cases hkind.symm.trans hkind'
    rw [List.filter_append, hself]
    refine ⟨bound, hallowed, .add _ fun hsingle => List.filter_eq_nil_iff.2 fun c hc => ?_⟩
    rw [hroom hsingle c hc]
    exact Bool.false_ne_true
  | replace K' _ hkind' hallowed hpresent =>
    cases hkind.symm.trans hkind'
    obtain ⟨bound, hbound⟩ := Option.isSome_iff_exists.1 hallowed
    obtain ⟨c, hc, hcK⟩ := hpresent
    have hnone : (cs.filter fun c => !Node.is c K).filter (Node.is · K) = [] := by
      rw [List.filter_filter, List.filter_eq_nil_iff]
      intro c _
      simp
    rw [List.filter_append, hself, hnone, List.nil_append]
    exact ⟨bound, hbound, .replace _ (List.ne_nil_of_mem (List.mem_filter.2 ⟨hc, hcK⟩))⟩
  | delete K' _ hkind' hallowed hpresent =>
    cases hkind.symm.trans hkind'
    obtain ⟨bound, hbound⟩ := Option.isSome_iff_exists.1 hallowed
    obtain ⟨c, hc, hmatches⟩ := hpresent
    obtain ⟨x, pre, post, _, hx, rfl, herased⟩ := List.exists_of_eraseP hc hmatches
    rw [herased, List.filter_append, List.filter_append,
      List.filter_cons_of_pos (p := (Node.is · K)) (Bool.and_eq_true_iff.1 hx).1]
    exact ⟨bound, hbound, .delete _ x _⟩

/-! ## All properties -/

theorem edits_append : Edits T (before ++ after) cs es
    ↔ ∃ ds, Edits T before cs ds ∧ Edits T after ds es := by
  induction before generalizing cs with
  | nil =>
    constructor
    · exact fun h => ⟨cs, .nil cs, h⟩
    · rintro ⟨_, ⟨⟩, h⟩
      exact h
  | cons step before ih =>
    constructor
    · rintro (_ | ⟨hfirst, hrest⟩)
      obtain ⟨ds, hbefore, hafter⟩ := ih.1 hrest
      exact ⟨ds, .cons hfirst hbefore, hafter⟩
    · rintro ⟨ds, _ | ⟨hfirst, hbefore⟩, hafter⟩
      exact .cons hfirst (ih.2 ⟨ds, hbefore, hafter⟩)

/-- Properties of other kinds change nothing. -/
theorem Edits.filter_of_not_is (h : Edits T todo cs ds)
    (htodo : ∀ step ∈ todo, Node.is step.2 K = false) :
    ds.filter (Node.is · K) = cs.filter (Node.is · K) := by
  induction h with
  | nil => rfl
  | cons hfirst _ ih =>
    obtain ⟨hstep, hrest⟩ := List.forall_mem_cons.1 htodo
    rw [ih hrest, hfirst.filter_of_not_is hstep]

/-- The children of a kind are what the last property of this kind makes of those before it. -/
theorem Edits.exists_last (h : Edits T todo cs es) {step : Deviate × Node}
    (hlast : (todo.filter fun step => Node.is step.2 K).getLast? = some step) :
    ∃ before after ds bound, todo = before ++ step :: after ∧ Edits T before cs ds
      ∧ T.substatement? K = some bound
      ∧ KindEdit bound step.2 step.1 (ds.filter (Node.is · K)) (es.filter (Node.is · K)) := by
  obtain ⟨init, hinit⟩ := List.getLast?_eq_some_iff.1 hlast
  obtain ⟨front, back, rfl, _, hback⟩ := List.filter_eq_append_iff.1 hinit
  obtain ⟨between, after, rfl, _, hstep, hnone⟩ := List.filter_eq_cons_iff.1 hback
  rw [← List.append_assoc] at h
  obtain ⟨ds, hbefore, hrest⟩ := edits_append.1 h
  obtain _ | ⟨hfirst, hafter⟩ := hrest
  obtain ⟨bound, hbound, hedit⟩ := hfirst.kindEdit hstep
  refine ⟨front ++ between, after, ds, bound, (List.append_assoc ..).symm, hbefore, hbound, ?_⟩
  rw [hafter.filter_of_not_is fun y hy => Bool.eq_false_iff.2 (List.filter_eq_nil_iff.1 hnone y hy)]
  exact hedit

/-! ## Replacing -/

theorem properties_append (before after : List (Deviate × Node)) :
    properties (before ++ after) = properties before ++ properties after :=
  List.flatMap_append

theorem properties_cons (x : Deviate × Node) (after : List (Deviate × Node)) :
    properties (x :: after) = x.2.children.map (x.1, ·) ++ properties after := List.flatMap_cons

theorem filter_map_children (deviate : Deviate) (s : Node) (K : Kind) :
    ((s.children.map (deviate, ·)).filter fun step => Node.is step.2 K)
      = (Node.childrenOfKind s K).map (deviate, ·) := by
  rw [List.filter_map]
  rfl

/-- **Of several properties of a kind that a `deviate replace` lists, the last one is left.** Where
it lists some, the target may have them, and behind the statement the target has the last of them
and no other child of the kind: it has all of them only if there is one. If no later `deviate`
statement has a property of the kind, this is what the deviation leaves. -/
theorem replace_keeps_last (happly : apply model f d = .ok g)
    (hdeviates : deviates d = .ok (before ++ (.replace, s) :: after))
    (hK : Node.childrenOfKind s K ≠ []) :
    ∃ t T cs₀ cs₁ cs, Deviation.target model f d = .ok t ∧ Node.kind? t.node = some T
      ∧ (T.substatement? K).isSome = true
      ∧ Edits T (properties before) t.node.children cs₀
      ∧ Edits T (s.children.map (.replace, ·)) cs₀ cs₁
      ∧ Edits T (properties after) cs₁ cs
      ∧ g = f.replace t ⟨t.node.label, cs⟩
      ∧ cs₁.filter (Node.is · K) = [(Node.childrenOfKind s K).getLast hK]
      ∧ (cs₁.filter (Node.is · K) = Node.childrenOfKind s K
        ↔ (Node.childrenOfKind s K).length = 1)
      ∧ ((∀ x ∈ after, Node.childrenOfKind x.2 K = []) →
        cs.filter (Node.is · K) = [(Node.childrenOfKind s K).getLast hK]) := by
  obtain ⟨t, ht, _⟩ := Result.bind_eq_ok.1 happly
  obtain ⟨T, hT⟩ := exists_kind_of_target ht
  obtain ⟨xs, hxs, hcase⟩ := (apply_eq_ok ht hT).1 happly
  cases hdeviates.symm.trans hxs
  obtain ⟨⟨n, hlone⟩, _⟩ | ⟨_, cs, hedits, rfl⟩ := hcase
  · -- a lone `not-supported` is no `replace`
    have hmem : (Deviate.replace, s) ∈ [(Deviate.notSupported, n)] := hlone ▸ by simp
    cases List.mem_singleton.1 hmem
  · rw [properties_append] at hedits
    obtain ⟨cs₀, hbefore, hrest⟩ := edits_append.1 hedits
    rw [properties_cons] at hrest
    obtain ⟨cs₁, hreplace, hafter⟩ := edits_append.1 hrest
    have hlast : ((s.children.map (Deviate.replace, ·)).filter fun step =>
        Node.is step.2 K).getLast? = some (.replace, (Node.childrenOfKind s K).getLast hK) := by
      rw [filter_map_children, List.getLast?_map, List.getLast?_eq_some_getLast hK]
      rfl
    obtain ⟨_, _, _, bound, _, _, hbound, hkind⟩ := hreplace.exists_last hlast
    have hleft : cs₁.filter (Node.is · K) = [(Node.childrenOfKind s K).getLast hK] := by
      generalize cs₁.filter (Node.is · K) = left at hkind
      cases hkind
      rfl
    refine ⟨t, T, cs₀, cs₁, cs, ht, hT, by rw [hbound]; rfl, hbefore, hreplace, hafter, rfl, hleft,
      ?_, fun hnone => ?_⟩
    · rw [hleft]
      constructor
      · intro h
        rw [← h]
        rfl
      · intro h
        obtain ⟨p, hp⟩ := List.length_eq_one_iff.1 h
        simp [hp]
    · rw [hafter.filter_of_not_is, hleft]
      intro step hstep
      obtain ⟨x, hx, hstep⟩ := List.mem_flatMap.1 hstep
      obtain ⟨p, hp, rfl⟩ := List.mem_map.1 hstep
      exact Bool.eq_false_iff.2 (List.filter_eq_nil_iff.1 (hnone x hx) p hp)

/-- A leaf-list with a default value, and a deviation that replaces this by two others. -/
def defaultsModule : List Source :=
  [.bareModule "a" [.bare "leaf-list" "l" [.bare "type" "string" [], .bare "default" "x" []],
    .bare "deviation" "/l"
      [.bare "deviate" "replace" [.bare "default" "a" [], .bare "default" "b" []]]]]

/-- Its declared model. -/
def defaultsModel : DeclaredModel := .ofLinkage Augmentation.loneLinkage defaultsModule

/-- The arguments of the children of a kind. -/
def argumentsOf (K : Kind) (n : Node) : List (Option String) :=
  (Node.childrenOfKind n K).map (·.label.argument)

/-- What is evaluated of it: it can be declared, and the deviation leaves the second default. -/
theorem evaluated_defaultsModule :
    DeclaredModel.canDeclare Augmentation.loneLinkage defaultsModule = true
      ∧ firstApplied defaultsModel (fun t xs g => decide (xs.map Prod.fst = [.replace]
        ∧ xs.map (fun x => argumentsOf .default x.2) = [[some "a", some "b"]]
        ∧ (g.node? ⟨t.module, t.address⟩).map (argumentsOf .default) = some [some "b"]))
        = .ok true := by
  decide +kernel

theorem replace_keeps_last_default : ∃ f g d s t T cs, Forest.ofModel defaultsModel = .ok f
    ∧ apply defaultsModel f d = .ok g ∧ deviates d = .ok [(.replace, s)]
    ∧ argumentsOf .default s = [some "a", some "b"]
    ∧ Deviation.target defaultsModel f d = .ok t ∧ Node.kind? t.node = some T
    ∧ g = f.replace t ⟨t.node.label, cs⟩
    ∧ argumentsOf .default ⟨t.node.label, cs⟩ = [some "b"] := by
  obtain ⟨f, d, _, xs, g, instantiated, _, _, hxs, happly, h⟩ :=
    exists_of_firstApplied evaluated_defaultsModule.2
  obtain ⟨hops, hdefaults, _⟩ := of_decide_eq_true h
  obtain ⟨⟨op, s⟩, rfl, hop⟩ := List.map_eq_singleton_iff.1 hops
  change op = .replace at hop
  subst hop
  have hs : argumentsOf .default s = [some "a", some "b"] := (List.cons.inj hdefaults).1
  have hne : Node.childrenOfKind s .default ≠ [] := by
    intro hnil
    rw [argumentsOf, hnil] at hs
    cases hs
  have hsplit : deviates d = .ok ([] ++ [(.replace, s)]) := hxs
  obtain ⟨t, T, _, _, cs, ht, hT, _, _, _, _, hg, _, _, hlast⟩ :=
    replace_keeps_last happly hsplit hne
  refine ⟨f, g, d, s, t, T, cs, instantiated, happly, hxs, hs, ht, hT, hg, ?_⟩
  have harg := congrArg List.getLast? hs
  rw [argumentsOf, List.getLast?_map, List.getLast?_eq_some_getLast hne, Option.map_some,
    List.getLast?_cons_cons, List.getLast?_singleton, Option.some.injEq] at harg
  show (cs.filter (Node.is · .default)).map (·.label.argument) = [some "b"]
  rw [hlast fun _ hx => absurd hx List.not_mem_nil, List.map_singleton, harg]

/-- Of the two values, the first one is lost. -/
theorem replace_drops_first : DeclaredModel.ofSources true defaultsModule = .ok defaultsModel
    ∧ ∃ f g d s t n, Forest.ofModel defaultsModel = .ok f
      ∧ Deviation.target defaultsModel f d = .ok t ∧ apply defaultsModel f d = .ok g
      ∧ deviates d = .ok [(.replace, s)] ∧ g.node? ⟨t.module, t.address⟩ = some n
      ∧ argumentsOf .default s = [some "a", some "b"] ∧ argumentsOf .default n = [some "b"] := by
  obtain ⟨hdeclare, h⟩ := evaluated_defaultsModule
  obtain ⟨f, d, t, xs, g, instantiated, _, ht, hxs, happly, h⟩ := exists_of_firstApplied h
  obtain ⟨hops, hdefaults, hleft⟩ := of_decide_eq_true h
  obtain ⟨⟨op, s⟩, rfl, hop⟩ := List.map_eq_singleton_iff.1 hops
  change op = .replace at hop
  subst hop
  obtain ⟨n, hn, hleft⟩ := Option.map_eq_some_iff.1 hleft
  exact ⟨DeclaredModel.ofSources_eq_ofLinkage (by cbv) rfl (by cbv) hdeclare,
    f, g, d, s, t, n, instantiated, ht, happly, hxs, hn, (List.cons.inj hdefaults).1, hleft⟩

end Deviation

/-! ## Bounds -/

/-- A bound is an upper and a lower one. -/
theorem Cardinality.allows_iff (bound : Cardinality) (count : Nat) : bound.allows count = true
    ↔ (bound.isSingle = true → count ≤ 1) ∧ (bound.isRequired = true → count ≠ 0) := by
  cases bound <;> simp [allows, isSingle, isRequired] <;> omega

namespace Kind

/-- Whether a statement may have a number of substatements of a kind. -/
def allowsCount (T K : Kind) (count : Nat) : Bool :=
  match T.substatement? K with
  | some bound => bound.allows count
  | none => count == 0

/-- The only substatement that a node with a name must have is the `type`, of which there is one. -/
theorem isRequired_iff_of_isSchemaNode {T K : Kind} {bound : Cardinality}
    (hT : T.isSchemaNode = true) (hbound : T.substatement? K = some bound) :
    (bound.isRequired = true ↔ K = .type) ∧ (K = .type → bound = .one) := by
  have h : ∀ T K : Kind, (!T.isSchemaNode || (T.substatement? K).all fun bound =>
      (bound.isRequired == (K == .type)) && (K != .type || bound == .one)) = true :=
    forall_iff.2 (by decide +kernel)
  have hcase := h T K
  rw [hT, hbound] at hcase
  simp only [Bool.not_true, Bool.false_or, Option.all_some, Bool.and_eq_true, beq_iff_eq,
    Bool.or_eq_true, bne_iff_ne] at hcase
  obtain ⟨hrequired, hone⟩ := hcase
  refine ⟨?_, fun hK => hone.resolve_left fun hne => hne hK⟩
  rw [hrequired]
  exact beq_iff_eq

end Kind

namespace Node

variable {T K : Kind} {cs : List Node}

/-- Of every kind there are as many children as the grammar allows below a statement of kind `T`. -/
def FitsTable (T : Kind) (cs : List Node) : Prop :=
  ∀ K, T.allowsCount K (cs.filter (is · K)).length = true

instance (T : Kind) (cs : List Node) : Decidable (FitsTable T cs) :=
  decidable_of_iff (∀ K ∈ Kind.all, T.allowsCount K (cs.filter (is · K)).length = true)
    (forall_congr' fun K => imp_iff_right (Kind.mem_all K))

/-- There are not too many children of a kind below a statement of kind `T`. -/
def IsBounded (T K : Kind) (cs : List Node) : Prop :=
  match T.substatement? K with
  | some bound => bound.isSingle = true → (cs.filter (is · K)).length ≤ 1
  | none => cs.filter (is · K) = []

/-- Below a node with a name there are enough children if there is a `type` where there must be. -/
theorem allowsCount_iff (hT : T.isSchemaNode = true) :
    T.allowsCount K (cs.filter (is · K)).length = true
      ↔ IsBounded T K cs ∧ (K = .type → (T.substatement? K).isSome = true →
        cs.filter (is · K) ≠ []) := by
  unfold Kind.allowsCount IsBounded
  cases hbound : T.substatement? K with
  | none => simp
  | some bound =>
    obtain ⟨hrequired, _⟩ := Kind.isRequired_iff_of_isSchemaNode hT hbound
    dsimp only
    rw [Cardinality.allows_iff, hrequired, ne_eq, List.length_eq_zero_iff]
    simp

end Node

namespace Deviation

open Node (FitsTable IsBounded)

variable {model : DeclaredModel} {f g : Forest} {d property : Node} {T K : Kind}
  {deviate : Deviate} {bound : Cardinality} {todo : List (Deviate × Node)}
  {cs ds es xs ys : List Node}

/-- Where there may be one only, there is one behind every property, or none if it is deleted. -/
theorem KindEdit.single (h : KindEdit bound property deviate xs ys)
    (hsingle : bound.isSingle = true) (hxs : xs.length ≤ 1) :
    ys.length ≤ 1 ∧ (ys = [] ↔ deviate = .delete) := by
  cases h with
  | add _ hroom =>
    rw [hroom hsingle]
    simp
  | replace => simp
  | delete pre x post =>
    rw [List.length_append, List.length_cons] at hxs
    have hpre : pre = [] := List.length_eq_zero_iff.1 (by omega)
    have hpost : post = [] := List.length_eq_zero_iff.1 (by omega)
    rw [hpre, hpost]
    simp

/-- A property keeps all upper bounds. -/
theorem Edit.isBounded (h : Edit T property deviate cs ds) (hcs : IsBounded T K cs) :
    IsBounded T K ds := by
  unfold Node.IsBounded at hcs ⊢
  cases hK : Node.is property K with
  | false => rwa [h.filter_of_not_is hK]
  | true =>
    obtain ⟨bound, hbound, hedit⟩ := h.kindEdit hK
    rw [hbound] at hcs ⊢
    exact fun hsingle => (hedit.single hsingle (hcs hsingle)).1

theorem Edits.isBounded (h : Edits T todo cs es) (hcs : IsBounded T K cs) : IsBounded T K es := by
  induction h with
  | nil => exact hcs
  | cons hfirst _ ih => exact ih (hfirst.isBounded hcs)

/-- What the last property of kind `type` does decides whether the grammar is kept. -/
theorem Edits.fitsTable_iff (h : Edits T todo cs es) (hT : T.isSchemaNode = true)
    (hcs : FitsTable T cs) : FitsTable T es
      ↔ ∀ step ∈ (todo.filter fun step => Node.is step.2 .type).getLast?, step.1 ≠ .delete := by
  have hbounded (K : Kind) : IsBounded T K cs := ((Node.allowsCount_iff hT).1 (hcs K)).1
  have hiff : FitsTable T es ↔ ((T.substatement? .type).isSome = true →
      es.filter (Node.is · .type) ≠ []) := by
    constructor
    · exact fun hes => ((Node.allowsCount_iff hT).1 (hes .type)).2 rfl
    · intro htype K
      refine (Node.allowsCount_iff hT).2 ⟨h.isBounded (hbounded K), ?_⟩
      rintro rfl
      exact htype
  rw [hiff]
  cases hlast : (todo.filter fun step => Node.is step.2 .type).getLast? with
  | none =>
    -- there is no such property, so there is a `type` if there was one
    have hnone := List.filter_eq_nil_iff.1 (List.getLast?_eq_none_iff.1 hlast)
    rw [h.filter_of_not_is fun step hstep => Bool.eq_false_iff.2 (hnone step hstep)]
    refine iff_of_true (((Node.allowsCount_iff hT).1 (hcs .type)).2 rfl) ?_
    simp
  | some step =>
    obtain ⟨before, after, ds, bound, rfl, hbefore, hbound, hedit⟩ := h.exists_last hlast
    have hone := (Kind.isRequired_iff_of_isSchemaNode hT hbound).2 rfl
    have hds := hbefore.isBounded (hbounded .type)
    unfold IsBounded at hds
    rw [hbound] at hds
    subst hone
    rw [hbound, ne_eq, (hedit.single rfl (hds rfl)).2]
    simp

/-- The target of a deviation has a name. -/
theorem isSchemaNode_of_target {t : Target} (ht : Deviation.target model f d = .ok t)
    (hT : Node.kind? t.node = some T) : T.isSchemaNode = true := by
  obtain ⟨_, _, _, _, _, _, _, hfollow, _⟩ := Forest.locate_eq_ok.1 (target_eq_ok.1 ht)
  obtain ⟨T', hT', hname⟩ := (Option.any_eq_true _ _).1 (Forest.isSchemaNode_of_follow hfollow)
  cases hT.symm.trans hT'
  exact hname

/-- **A deviation keeps the grammar of its target unless it takes out the `type`.** The target is
taken out, or its new children are there as often as the grammar allows, but for those of kind
`type`: these are so exactly if the last property of this kind is not one of a `deviate delete`. -/
theorem deviated_fits_iff (happly : apply model f d = .ok g) : ∃ t T xs,
    Deviation.target model f d = .ok t ∧ Node.kind? t.node = some T ∧ deviates d = .ok xs
      ∧ (FitsTable T t.node.children →
        (∃ n, xs = [(.notSupported, n)]) ∧ g = f.remove t
        ∨ ∃ n, g.node? ⟨t.module, t.address⟩ = some n ∧ n.label = t.node.label
          ∧ (∀ K, K ≠ .type → T.allowsCount K (Node.childrenOfKind n K).length = true)
          ∧ (FitsTable T n.children
            ↔ ∀ step ∈ ((properties xs).filter fun step => Node.is step.2 .type).getLast?,
              step.1 ≠ .delete)) := by
  obtain ⟨t, ht, _⟩ := Result.bind_eq_ok.1 happly
  obtain ⟨T, hT⟩ := exists_kind_of_target ht
  obtain ⟨xs, hxs, hcase⟩ := (apply_eq_ok ht hT).1 happly
  refine ⟨t, T, xs, ht, hT, hxs, fun hfits => ?_⟩
  obtain hlone | ⟨_, cs, hedits, rfl⟩ := hcase
  · exact .inl hlone
  · obtain ⟨l, hold, hnew⟩ := (changesAt_replace ht cs).node
    have hself := hold.symm.trans (Forest.node?_of_locate (target_eq_ok.1 ht))
    have hlabel : l = t.node.label := congrArg Tree.label (Option.some.inj hself)
    have hname := isSchemaNode_of_target ht hT
    refine .inr ⟨_, hnew, hlabel, fun K hK => ?_, hedits.fitsTable_iff hname hfits⟩
    have hbounded := ((Node.allowsCount_iff hname).1 (hfits K)).1
    exact (Node.allowsCount_iff hname).2 ⟨hedits.isBounded hbounded, fun heq => absurd heq hK⟩

/-- A leaf of which a deviation deletes the units and replaces the type. -/
def unitsModule : List Source :=
  [.bareModule "a" [.bare "leaf" "l" [.bare "type" "string" [], .bare "units" "s" []],
    .bare "deviation" "/l" [.bare "deviate" "delete" [.bare "units" "s" []],
      .bare "deviate" "replace" [.bare "type" "binary" []]]]]

/-- Its declared model. -/
def unitsModel : DeclaredModel := .ofLinkage Augmentation.loneLinkage unitsModule

theorem deviated_fits_iff_units : ∃ f g d t n, Forest.ofModel unitsModel = .ok f
    ∧ apply unitsModel f d = .ok g ∧ Deviation.target unitsModel f d = .ok t
    ∧ Node.kind? t.node = some .leaf ∧ FitsTable .leaf t.node.children
    ∧ g.node? ⟨t.module, t.address⟩ = some n ∧ FitsTable .leaf n.children := by
  have h : firstApplied unitsModel (fun t xs _ => decide (Node.kind? t.node = some .leaf
      ∧ FitsTable .leaf t.node.children ∧ xs.map Prod.fst = [.delete, .replace]
      ∧ ((properties xs).filter fun step => Node.is step.2 .type).map Prod.fst = [.replace]))
      = .ok true := by
    decide +kernel
  obtain ⟨f, d, t, xs, g, instantiated, _, ht, hxs, happly, h⟩ := exists_of_firstApplied h
  obtain ⟨hT, hfits, hops, htypes⟩ := of_decide_eq_true h
  obtain ⟨t', T, ys, ht', hT', hys, hcase⟩ := deviated_fits_iff happly
  cases ht.symm.trans ht'
  cases hT.symm.trans hT'
  cases hxs.symm.trans hys
  obtain ⟨⟨n, rfl⟩, _⟩ | ⟨n, hn, _, _, hiff⟩ := hcase hfits
  · cases hops
  · refine ⟨f, g, d, t, n, instantiated, happly, ht, hT, hfits, hn, hiff.2 ?_⟩
    obtain ⟨step, hsteps, hstep⟩ := List.map_eq_singleton_iff.1 htypes
    rw [hsteps, List.getLast?_singleton]
    rintro _ ⟨⟩
    rw [hstep]
    decide

/-- A leaf of which a deviation deletes the type. -/
def untypedModule : List Source :=
  [.bareModule "a" [.bare "leaf" "l" [.bare "type" "string" []],
    .bare "deviation" "/l" [.bare "deviate" "delete" [.bare "type" "string" []]]]]

/-- Its declared model. -/
def untypedModel : DeclaredModel := .ofLinkage Augmentation.loneLinkage untypedModule

/-- A leaf that has one type, as it must, has none behind the deviation. -/
theorem delete_takes_type : DeclaredModel.ofSources true untypedModule = .ok untypedModel
    ∧ ∃ f g d t n, Forest.ofModel untypedModel = .ok f
      ∧ Deviation.target untypedModel f d = .ok t ∧ apply untypedModel f d = .ok g
      ∧ Node.kind? t.node = some .leaf ∧ g.node? ⟨t.module, t.address⟩ = some n
      ∧ FitsTable .leaf t.node.children ∧ ¬ FitsTable .leaf n.children
      ∧ Node.childrenOfKind n .type = [] := by
  obtain ⟨hdeclare, h⟩ : DeclaredModel.canDeclare Augmentation.loneLinkage untypedModule = true
    ∧ firstApplied untypedModel (fun t _ g => decide (Node.kind? t.node = some .leaf
      ∧ FitsTable .leaf t.node.children
      ∧ (g.node? ⟨t.module, t.address⟩).map (fun n => (decide (FitsTable .leaf n.children),
        (Node.childrenOfKind n .type).length)) = some (false, 0))) = .ok true := by
    decide +kernel
  obtain ⟨f, d, t, _, g, instantiated, _, ht, _, happly, h⟩ := exists_of_firstApplied h
  obtain ⟨hT, hfits, hnode⟩ := of_decide_eq_true h
  obtain ⟨n, hn, hleft⟩ := Option.map_eq_some_iff.1 hnode
  obtain ⟨hnot, hnone⟩ := Prod.mk.inj hleft
  exact ⟨DeclaredModel.ofSources_eq_ofLinkage (by cbv) rfl (by cbv) hdeclare,
    f, g, d, t, n, instantiated, ht, happly, hT, hn, hfits, of_decide_eq_false hnot,
    List.length_eq_zero_iff.1 hnone⟩

end Deviation

end YangSchema
