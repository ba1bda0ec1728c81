import YangSchema.Proofs.Names
import YangSchema.Proofs.Outcome

/-!
# One augment

An augment is applied where its path leads somewhere (`Augmentation.Resolves`), where the node there
can be augmented, and where neither this node nor the augment itself has a name of its content
already (`Augmentation.Admits`). What is applied then makes the target grow by copies of the content
(`Augmentation.attempt_eq_ok`).

`Augmentation.applyOne` is this as a step that fails when the path leads nowhere, and
`Augmentation.applyInTurn` applies augments in a given order.
-/

namespace YangSchema

/-! ## Forests -/

namespace Forest

/-- Forests whose trees differ in the order of siblings alone. -/
def Rearranged (may : NodeLabel → NodeLabel → Prop) : Forest → Forest → Prop :=
  List.Forall₂ fun t u => t.id = u.id ∧ Tree.Rearranged may t.root u.root

/-- The node to which names lead; the module of the first one selects the tree. -/
def descend? (f : Forest) : List Node.Name → Option Node
  | [] => none
  | k :: ks => (f.root? k.1).bind (Node.descend? (k :: ks))

/-- Adds nodes behind the children of the node to which names lead. -/
def grow (cs : List Node) (f : Forest) : List Node.Name → Forest
  | [] => f
  | k :: ks => f.update k.1 (Node.grow cs (k :: ks))

variable {may : NodeLabel → NodeLabel → Prop} {f g h : Forest} {m m' : SourceId}
  {k l : Node.Name} {ks ls : List Node.Name} {cs ds : List Node} {n r x : Node}
  {change change' : Node → Node}

/-! ### Changing a tree -/

theorem root?_cons (t : ModuleTree) :
    root? (t :: f) m = if t.id = m then some t.root else root? f m := by
  unfold root?
  rw [List.find?_cons]
  by_cases h : t.id = m <;> simp [h]

theorem update_cons (t : ModuleTree) :
    update (t :: f) m change
      = (if t.id = m then ⟨t.id, change t.root⟩ else t) :: update f m change := rfl

@[simp] theorem map_id_update : (f.update m change).map (·.id) = f.map (·.id) := by
  unfold update
  rw [List.map_map]
  refine List.map_congr_left fun t _ => ?_
  show (if t.id = m then (⟨t.id, change t.root⟩ : ModuleTree) else t).id = t.id
  split <;> rfl

theorem root?_update_self : (f.update m change).root? m = (f.root? m).map change := by
  induction f with
  | nil => rfl
  | cons t f ih =>
    rw [update_cons, root?_cons, root?_cons]
    by_cases ht : t.id = m
    · rw [if_pos ht, if_pos ht, if_pos ht]
      rfl
    · rw [if_neg ht, if_neg ht, if_neg ht, ih]

theorem root?_update_of_ne (hne : m ≠ m') : (f.update m change).root? m' = f.root? m' := by
  induction f with
  | nil => rfl
  | cons t f ih =>
    rw [update_cons, root?_cons, root?_cons, ih]
    by_cases ht : t.id = m
    · rw [if_pos ht]
      have hm' : t.id ≠ m' := fun h => hne (ht.symm.trans h)
      rw [if_neg hm', if_neg hm']
    · rw [if_neg ht]

theorem update_comm (hne : m ≠ m') :
    (f.update m' change').update m change = (f.update m change).update m' change' := by
  induction f with
  | nil => rfl
  | cons t f ih =>
    rw [update_cons, update_cons, update_cons, update_cons, ih]
    congr 1
    by_cases ht : t.id = m
    · have ht' : t.id ≠ m' := fun h => hne (ht.symm.trans h)
      rw [if_pos ht, if_neg ht', if_neg ht', if_pos ht]
    · rw [if_neg ht]
      by_cases ht' : t.id = m'
      · rw [if_pos ht', if_neg ht]
      · rw [if_neg ht', if_neg ht]

theorem update_update :
    (f.update m change').update m change = f.update m fun n => change (change' n) := by
  induction f with
  | nil => rfl
  | cons t f ih =>
    rw [update_cons, update_cons, update_cons, ih]
    by_cases ht : t.id = m
    · rw [if_pos ht, if_pos ht, if_pos ht]
    · rw [if_neg ht, if_neg ht, if_neg ht]

/-- Where no two trees have one identifier, a tree is that of its module. -/
theorem root?_of_mem (distinct : (f.map (·.id)).Nodup) {t : ModuleTree} (ht : t ∈ f) :
    f.root? t.id = some t.root := by
  induction f with
  | nil => exact absurd ht List.not_mem_nil
  | cons u f ih =>
    rw [List.map_cons, List.nodup_cons] at distinct
    rw [root?_cons]
    rcases List.mem_cons.1 ht with rfl | ht
    · rw [if_pos rfl]
    · have hne : u.id ≠ t.id := fun h => distinct.1 (h ▸ List.mem_map_of_mem ht)
      rw [if_neg hne]
      exact ih distinct.2 ht

/-- Only what a change makes of the tree of its module matters. -/
theorem update_congr (distinct : (f.map (·.id)).Nodup) (hr : f.root? m = some r)
    (h : change r = change' r) : f.update m change = f.update m change' := by
  refine List.map_congr_left fun t ht => ?_
  by_cases hm : t.id = m
  · have hroot := root?_of_mem distinct ht
    rw [hm, hr] at hroot
    rw [if_pos hm, if_pos hm, ← Option.some.inj hroot, h]
  · rw [if_neg hm, if_neg hm]

/-! ### Rearranged forests -/

namespace Rearranged

theorem refl (f : Forest) : Rearranged may f f :=
  List.forall₂_same.2 fun t _ => ⟨rfl, .refl t.root⟩

theorem trans (hfg : Rearranged may f g) (hgh : Rearranged may g h) : Rearranged may f h := by
  induction hfg generalizing h with
  | nil => exact hgh
  | cons ht _ ih =>
    cases hgh with
    | cons hu hrest => exact .cons ⟨ht.1.trans hu.1, ht.2.trans hu.2⟩ (ih hrest)

theorem symm (hmay : ∀ a b, may a b → may b a) (hfg : Rearranged may f g) :
    Rearranged may g f := hfg.flip.imp fun _ _ h => ⟨h.1.symm, h.2.symm hmay⟩

theorem map_id (hfg : Rearranged may f g) : f.map (·.id) = g.map (·.id) := by
  rw [← List.forall₂_eq_eq_eq, List.forall₂_map_left_iff, List.forall₂_map_right_iff]
  exact hfg.imp fun _ _ h => h.1

theorem root? (hfg : Rearranged may f g) (hr : f.root? m = some r) :
    ∃ s, g.root? m = some s ∧ Tree.Rearranged may r s := by
  induction hfg with
  | nil => cases hr
  | @cons t u _ _ ht _ ih =>
    rw [root?_cons] at hr
    rw [root?_cons, ← ht.1]
    by_cases hm : t.id = m
    · rw [if_pos hm] at hr ⊢
      cases hr
      exact ⟨u.root, rfl, ht.2⟩
    · rw [if_neg hm] at hr ⊢
      exact ih hr

theorem update (hcongr : ∀ n n', Tree.Rearranged may n n' →
    Tree.Rearranged may (change n) (change n')) (hfg : Rearranged may f g) :
    Rearranged may (f.update m change) (g.update m change) := by
  induction hfg with
  | nil => exact .nil
  | @cons t u _ _ ht _ ih =>
    refine .cons ?_ ih
    dsimp only
    rw [← ht.1]
    by_cases hm : t.id = m
    · rw [if_pos hm, if_pos hm]
      exact ⟨rfl, hcongr _ _ ht.2⟩
    · rw [if_neg hm, if_neg hm]
      exact ht

/-- Changing the tree of a module in two ways that come out alike on this tree. -/
theorem update_of_root? (distinct : (f.map (·.id)).Nodup) (hr : f.root? m = some r)
    (h : Tree.Rearranged may (change r) (change' r)) :
    Rearranged may (f.update m change) (f.update m change') := by
  unfold Forest.update Forest.Rearranged
  rw [List.forall₂_map_left_iff, List.forall₂_map_right_iff]
  refine List.forall₂_same.2 fun t ht => ?_
  by_cases hm : t.id = m
  · have hroot := root?_of_mem distinct ht
    rw [hm, hr] at hroot
    rw [if_pos hm, if_pos hm]
    exact ⟨rfl, (Option.some.inj hroot) ▸ h⟩
  · rw [if_neg hm, if_neg hm]
    exact ⟨rfl, .refl t.root⟩

end Rearranged

/-! ### Paths -/

theorem descend?_cons_eq_some : f.descend? (k :: ks) = some x
    ↔ ∃ r, f.root? k.1 = some r ∧ Node.descend? (k :: ks) r = some x :=
  Option.bind_eq_some_iff

@[simp] theorem map_id_grow : (grow cs f ks).map (·.id) = f.map (·.id) := by
  cases ks with
  | nil => rfl
  | cons k ks => exact map_id_update

theorem descend?_grow (cs : List Node) (ks : List Node.Name) (hn : f.descend? ls = some n) :
    ∃ n', (grow cs f ks).descend? ls = some n' ∧ n'.label = n.label ∧ Node.childNames n'
      = Node.childNames n
        ++ if ls = ks then (cs.filter Node.isSchemaNode).map Augmentation.nameOf else [] := by
  cases ls with
  | nil => cases hn
  | cons l ls =>
    obtain ⟨r, hr, hn'⟩ := descend?_cons_eq_some.1 hn
    cases ks with
    | nil =>
      refine ⟨n, hn, rfl, ?_⟩
      rw [if_neg (List.cons_ne_nil l ls), List.append_nil]
    | cons k ks =>
      by_cases hkl : k.1 = l.1
      · obtain ⟨n', hfound, hrest⟩ := Node.descend?_grow cs (k :: ks) hn'
        refine ⟨n', descend?_cons_eq_some.2 ⟨_, ?_, hfound⟩, hrest⟩
        rw [grow, hkl, root?_update_self, hr]
        rfl
      · refine ⟨n, descend?_cons_eq_some.2 ⟨r, ?_, hn'⟩, rfl, ?_⟩
        · rw [grow, root?_update_of_ne hkl, hr]
        · rw [if_neg fun h => hkl (congrArg Prod.fst (List.cons.inj h).1.symm), List.append_nil]

theorem exists_descend?_of_grow (hnew : ∀ l ∈ ls, ∀ c ∈ cs, ¬ Node.hasName l c = true)
    (hn : (grow cs f ks).descend? ls = some n) : ∃ n', f.descend? ls = some n' := by
  cases ls with
  | nil => cases hn
  | cons l ls =>
    cases ks with
    | nil => exact ⟨n, hn⟩
    | cons k ks =>
      obtain ⟨r, hr, hbelow⟩ := descend?_cons_eq_some.1 hn
      rw [grow] at hr
      by_cases hkl : k.1 = l.1
      · rw [hkl, root?_update_self] at hr
        obtain ⟨s, hs, rfl⟩ := Option.map_eq_some_iff.1 hr
        obtain ⟨n', hn'⟩ := Node.exists_descend?_of_grow hnew hbelow
        exact ⟨n', descend?_cons_eq_some.2 ⟨s, hs, hn'⟩⟩
      · rw [root?_update_of_ne hkl] at hr
        exact ⟨n, descend?_cons_eq_some.2 ⟨r, hr, hbelow⟩⟩

theorem descend?_rearranged (hfg : Rearranged NodeLabel.Apart f g)
    (hn : f.descend? ks = some n) :
    ∃ x, g.descend? ks = some x ∧ Tree.Rearranged NodeLabel.Apart n x := by
  cases ks with
  | nil => cases hn
  | cons k ks =>
    obtain ⟨r, hr, hbelow⟩ := descend?_cons_eq_some.1 hn
    obtain ⟨s, hs, hrs⟩ := hfg.root? hr
    obtain ⟨x, hx, hnx⟩ := Node.descend?_rearranged hrs hbelow
    exact ⟨x, descend?_cons_eq_some.2 ⟨s, hs, hx⟩, hnx⟩

theorem grow_rearranged (hfg : Rearranged NodeLabel.Apart f g) :
    Rearranged NodeLabel.Apart (grow cs f ks) (grow cs g ks) := by
  cases ks with
  | nil => exact hfg
  | cons k ks => exact hfg.update fun _ _ h => Node.grow_rearranged h

/-- Of two nodes that are there, it does not matter which grows first. -/
theorem grow_comm (distinct : (f.map (·.id)).Nodup) (hks : f.descend? ks = some x)
    (hls : f.descend? ls = some n)
    (hnew : ks = ls → ∀ c ∈ cs, ∀ d ∈ ds, Augmentation.nameOf c ≠ Augmentation.nameOf d) :
    Rearranged NodeLabel.Apart (grow cs (grow ds f ls) ks) (grow ds (grow cs f ks) ls) := by
  cases ks with
  | nil => cases hks
  | cons k ks =>
    cases ls with
    | nil => cases hls
    | cons l ls =>
      obtain ⟨r, hr, hx⟩ := descend?_cons_eq_some.1 hks
      obtain ⟨s, hs, hn⟩ := descend?_cons_eq_some.1 hls
      rw [grow, grow, grow, grow]
      by_cases hkl : k.1 = l.1
      · rw [← hkl] at hs ⊢
        cases hr.symm.trans hs
        rw [update_update, update_update]
        exact .update_of_root? distinct hr (Node.grow_comm hx hn hnew)
      · rw [update_comm hkl]
        exact .refl _

/-! ### Reading a path -/

/-- The names for which the steps of a path stand that is written in a source. -/
def stepNames? (model : DeclaredModel) (source : SourceId) (steps : List Step) :
    Option (List Node.Name) :=
  steps.mapM fun step => (stepModule? model source step).map (·, step.name)

/-- The names for which a path stands. -/
def pathNames? (model : DeclaredModel) (source : SourceId) (path : String) :
    Option (List Node.Name) :=
  (SchemaPath.steps? true path).bind (stepNames? model source)

variable {model : DeclaredModel} {source : SourceId} {path : String} {step : Step}
  {steps : List Step} {p : List Nat}

theorem stepNames?_cons_eq_some : stepNames? model source (step :: steps) = some ks
    ↔ ∃ m ks', stepModule? model source step = some m ∧ stepNames? model source steps = some ks'
      ∧ (m, step.name) :: ks' = ks := by
  unfold stepNames?
  rw [List.mapM_cons]
  constructor
  · intro h
    obtain ⟨k, hk, h⟩ := Option.bind_eq_some_iff.1 h
    obtain ⟨m, hm, rfl⟩ := Option.map_eq_some_iff.1 hk
    obtain ⟨ks', hks', h⟩ := Option.bind_eq_some_iff.1 h
    exact ⟨m, ks', hm, hks', Option.some.inj h⟩
  · rintro ⟨m, ks', hm, hks', rfl⟩
    rw [hm, hks']
    rfl

theorem childPlace?_eq (m : SourceId) (name : String) (ns : List Node) :
    Node.childPlace? (fun l => l.module = m) name ns = ns.findIdx? (Node.hasName (m, name)) := by
  unfold Node.childPlace?
  congr 1
  funext n
  unfold Node.hasName Augmentation.nameOf
  rw [Bool.and_assoc]
  congr 1
  rw [Bool.eq_iff_iff]
  simp [and_comm]

/-- One step of following a path goes to the first child of its name. -/
theorem follow_cons_eq_ok : follow model source n (step :: steps) = .ok (p, x)
    ↔ ∃ m i c q, stepModule? model source step = some m
      ∧ n.children.findIdx? (Node.hasName (m, step.name)) = some i ∧ n.children[i]? = some c
      ∧ follow model source c steps = .ok (q, x) ∧ i :: q = p := by
  constructor
  · intro h
    rw [follow, stepModule] at h
    cases hm : stepModule? model source step with
    | none => rw [hm] at h; cases h
    | some m =>
      rw [hm] at h
      simp only [bind, Except.bind, childPlace?_eq] at h
      split at h
      · rename_i i c hi hc
        rw [hi] at hc
        cases hrest : follow model source c steps with
        | error e => rw [hrest] at h; cases h
        | ok r =>
          rw [hrest] at h
          obtain ⟨hp, hx⟩ := Prod.mk.inj (Except.ok.inj h)
          exact ⟨m, i, c, r.1, rfl, hi, hc, by rw [hrest, ← hx], hp⟩
      · cases h
  · rintro ⟨m, i, c, q, hm, hi, hc, hrest, rfl⟩
    rw [follow, stepModule, hm]
    simp only [bind, Except.bind, childPlace?_eq, hi, Option.bind_some, hc, hrest]
    rfl

/-- Where a path leads, its names lead, and growing there is replacing the node at the address. -/
theorem names_of_follow (h : follow model source n steps = .ok (p, x)) :
    ∃ ks, stepNames? model source steps = some ks ∧ Node.descend? ks n = some x
      ∧ ∀ cs, Tree.replace (x.addChildren cs) p n = Node.grow cs ks n := by
  induction steps generalizing n p with
  | nil =>
    obtain ⟨rfl, rfl⟩ := Prod.mk.inj (Except.ok.inj h)
    exact ⟨[], rfl, rfl, fun _ => rfl⟩
  | cons step steps ih =>
    obtain ⟨m, i, c, q, hm, hi, hc, hrest, rfl⟩ := follow_cons_eq_ok.1 h
    obtain ⟨ks, hks, hx, hgrow⟩ := ih hrest
    refine ⟨(m, step.name) :: ks, stepNames?_cons_eq_some.2 ⟨m, ks, hm, hks, rfl⟩,
      Node.descend?_cons_eq_some.2 ⟨c, ?_, hx⟩, fun cs => ?_⟩
    · rw [List.find?_eq_bind_findIdx?_getElem?, hi]
      exact hc
    · have hplace : n.children.findIdx (Node.hasName (m, step.name)) = i :=
        (List.findIdx?_eq_some_iff_findIdx_eq.1 hi).2
      rw [Tree.replace, Node.grow, Node.changeFirst, hplace]
      exact congrArg _ (Tree.modify_congr hc (hgrow cs))

/-- Where the names of a path lead, the path leads. -/
theorem exists_follow (hks : stepNames? model source steps = some ks)
    (hx : Node.descend? ks n = some x) : ∃ p, follow model source n steps = .ok (p, x) := by
  induction steps generalizing n ks with
  | nil =>
    cases hks
    rw [← Option.some.inj hx]
    exact ⟨[], rfl⟩
  | cons step steps ih =>
    obtain ⟨m, ks', hm, hks', rfl⟩ := stepNames?_cons_eq_some.1 hks
    obtain ⟨c, hc, hbelow⟩ := Node.descend?_cons_eq_some.1 hx
    rw [List.find?_eq_bind_findIdx?_getElem?] at hc
    obtain ⟨i, hi, hc⟩ := Option.bind_eq_some_iff.1 hc
    obtain ⟨q, hq⟩ := ih hks' hbelow
    exact ⟨i :: q, follow_cons_eq_ok.2 ⟨m, i, c, q, hm, hi, hc, hq, rfl⟩⟩

/-- A path leads somewhere in a forest by following its steps in the tree of its first module. -/
theorem locate_eq_ok {t : Target} : locate model f source path = .ok t
    ↔ ∃ step rest m r, SchemaPath.steps? true path = some (step :: rest)
      ∧ stepModule? model source step = some m ∧ f.root? m = some r
      ∧ follow model source r (step :: rest) = .ok (t.address, t.node) ∧ m = t.module := by
  constructor
  · intro h
    unfold locate at h
    split at h
    · cases h
    · cases h
    · rename_i step rest hsteps
      cases hm : stepModule? model source step with
      | none =>
        rw [stepModule, hm] at h
        cases h
      | some m =>
        rw [stepModule, hm] at h
        simp only [bind, Except.bind] at h
        split at h
        · cases h
        · rename_i r hr
          cases hfollow : follow model source r (step :: rest) with
          | error e => rw [hfollow] at h; cases h
          | ok q =>
            rw [hfollow] at h
            cases Except.ok.inj h
            exact ⟨step, rest, m, r, hsteps, hm, hr, hfollow, rfl⟩
  · rintro ⟨step, rest, m, r, hsteps, hm, hr, hfollow, rfl⟩
    rw [locate, hsteps]
    simp only [stepModule, hm, bind, Except.bind, hr, hfollow]
    rfl

/-- Where a path leads in a forest, its names lead, and growing there is replacing the target. -/
theorem names_of_locate {t : Target} (distinct : (f.map (·.id)).Nodup)
    (h : locate model f source path = .ok t) :
    ∃ ks, pathNames? model source path = some ks ∧ f.descend? ks = some t.node
      ∧ ∀ cs, f.replace t (t.node.addChildren cs) = grow cs f ks := by
  obtain ⟨step, rest, m, r, hsteps, hm, hr, hfollow, hmodule⟩ := locate_eq_ok.1 h
  obtain ⟨ks, hks, hdescend, hgrow⟩ := names_of_follow hfollow
  obtain ⟨m', ks', hm', _, rfl⟩ := stepNames?_cons_eq_some.1 hks
  cases hm.symm.trans hm'
  refine ⟨(m, step.name) :: ks', by rw [pathNames?, hsteps]; exact hks,
    descend?_cons_eq_some.2 ⟨r, hr, hdescend⟩, fun cs => ?_⟩
  rw [replace, grow, ← hmodule]
  exact update_congr distinct hr (hgrow cs)

/-- Where the names of a path lead in a forest, the path leads. -/
theorem exists_locate (hks : pathNames? model source path = some ks)
    (hx : f.descend? ks = some x) : ∃ t, locate model f source path = .ok t := by
  obtain ⟨steps, hsteps, hnames⟩ := Option.bind_eq_some_iff.1 hks
  cases steps with
  | nil =>
    cases hnames
    cases hx
  | cons step rest =>
    obtain ⟨m, ks', hm, _, rfl⟩ := stepNames?_cons_eq_some.1 hnames
    obtain ⟨r, hr, hdescend⟩ := descend?_cons_eq_some.1 hx
    obtain ⟨p, hp⟩ := exists_follow hnames hdescend
    exact ⟨⟨m, p, x⟩, locate_eq_ok.2 ⟨step, rest, m, r, hsteps, hm, hr, hp, rfl⟩⟩

end Forest

namespace Augmentation

variable {model : DeclaredModel} {f g h : Forest} {a : Node} {as bs : List Node}

/-! ## Applying one augment -/

/-- The path of an augment, as names. -/
def pathOf? (model : DeclaredModel) (a : Node) : Option (List Node.Name) :=
  Forest.pathNames? model a.label.source (a.label.argument.getD "")

/-- What an augment adds to its target: marked copies of its content, which are subject to its
conditions. -/
def copies (a : Node) : List Node :=
  (content a).map fun n => (Node.markAugmenting n).addConditions (Node.conditions a)

/-- The path of an augment leads somewhere. -/
def Resolves (model : DeclaredModel) (f : Forest) (a : Node) : Prop :=
  ∃ ks n, pathOf? model a = some ks ∧ f.descend? ks = some n

/-- A node can be augmented, and none of the names of the content is taken. -/
structure Admits (a n : Node) : Prop where
  augmentable : (Node.kind? n).any (·.isAugmentable) = true
  distinct : ((content a).map nameOf).Nodup
  free : ∀ c ∈ content a, nameOf c ∉ Node.childNames n

theorem firstClash?_nil (taken : List (SourceId × String)) : firstClash? taken [] = none := rfl

theorem firstClash?_cons (taken : List (SourceId × String)) (n : Node) (ns : List Node) :
    firstClash? taken (n :: ns)
      = if nameOf n ∈ taken then some n else firstClash? (nameOf n :: taken) ns := rfl

theorem firstClash?_eq_none_iff {taken : List (SourceId × String)} {ns : List Node} :
    firstClash? taken ns = none
      ↔ (ns.map nameOf).Nodup ∧ ∀ n ∈ ns, nameOf n ∉ taken := by
  induction ns generalizing taken with
  | nil => simp [firstClash?_nil]
  | cons n ns ih =>
    rw [firstClash?_cons]
    by_cases hn : nameOf n ∈ taken
    · rw [if_pos hn]
      simp only [reduceCtorEq, false_iff, not_and]
      exact fun _ h => h n List.mem_cons_self hn
    · rw [if_neg hn, ih, List.map_cons, List.nodup_cons, List.mem_map]
      simp only [List.mem_cons, not_or]
      grind

theorem splice_eq_ok {n x : Node} :
    splice a n = .ok x ↔ Admits a n ∧ n.addChildren (copies a) = x := by
  unfold splice
  by_cases haug : (Node.kind? n).any (·.isAugmentable) = true
  · rw [haug, Bool.not_true, if_neg Bool.false_ne_true]
    cases hclash : firstClash? ((Node.schemaChildren n).map nameOf) (content a) with
    | some c =>
      simp only [reduceCtorEq, false_iff, not_and]
      intro hadmits
      have hnone := firstClash?_eq_none_iff.2 ⟨hadmits.distinct, hadmits.free⟩
      rw [Node.childNames, hclash] at hnone
      cases hnone
    | none =>
      obtain ⟨hdistinct, hfree⟩ := firstClash?_eq_none_iff.1 hclash
      rw [Except.ok.injEq]
      exact ⟨fun h => ⟨⟨haug, hdistinct, hfree⟩, h⟩, fun h => h.2⟩
  · rw [Bool.not_eq_true] at haug
    rw [haug, Bool.not_false, if_pos rfl]
    simp only [reduceCtorEq, false_iff, not_and]
    intro hadmits
    have htrue := hadmits.augmentable
    rw [haug] at htrue
    cases htrue

/-- An augment succeeds exactly where its path leads to a node that admits it. -/
theorem attempt_eq_ok (distinct : (f.map (·.id)).Nodup) : attempt model f a = .ok (.ok g)
    ↔ ∃ ks n, pathOf? model a = some ks ∧ f.descend? ks = some n ∧ Admits a n
      ∧ Forest.grow (copies a) f ks = g := by
  unfold attempt
  constructor
  · intro h
    split at h
    · cases h
    · rename_i t ht
      obtain ⟨x, hx, h⟩ := Result.bind_eq_ok.1 h
      obtain ⟨hadmits, rfl⟩ := splice_eq_ok.1 hx
      obtain ⟨ks, hks, hdescend, hgrow⟩ := Forest.names_of_locate distinct ht
      refine ⟨ks, t.node, hks, hdescend, hadmits, ?_⟩
      rw [← hgrow]
      exact Except.ok.inj (Except.ok.inj h)
  · rintro ⟨ks, n, hks, hn, hadmits, rfl⟩
    obtain ⟨t, ht⟩ := Forest.exists_locate hks hn
    -- the target is the node of the names, since names lead to one node only
    obtain ⟨ks', hks', hdescend, hgrow⟩ := Forest.names_of_locate distinct ht
    cases hks.symm.trans hks'
    cases hn.symm.trans hdescend
    rw [ht]
    refine Result.bind_eq_ok.2 ⟨_, splice_eq_ok.2 ⟨hadmits, rfl⟩, ?_⟩
    rw [hgrow]
    rfl

/-- The path of an augment is at fault exactly where it leads nowhere. -/
theorem attempt_eq_fault_iff (distinct : (f.map (·.id)).Nodup) :
    (∃ fault, attempt model f a = .ok (.error fault)) ↔ ¬ Resolves model f a := by
  unfold attempt
  constructor
  · rintro ⟨fault, h⟩ ⟨ks, n, hks, hn⟩
    obtain ⟨t, ht⟩ := Forest.exists_locate hks hn
    rw [ht] at h
    obtain ⟨_, _, h⟩ := Result.bind_eq_ok.1 h
    cases h
  · intro hnot
    split
    · exact ⟨_, rfl⟩
    · rename_i t ht
      obtain ⟨ks, hks, hdescend, _⟩ := Forest.names_of_locate distinct ht
      exact absurd ⟨ks, t.node, hks, hdescend⟩ hnot

/-! ## Applying augments in turn -/

/-- Applies an augment whose path has to lead somewhere. -/
def applyOne (model : DeclaredModel) (f : Forest) (a : Node) : Result Forest := do
  match ← attempt model f a with
  | .ok g => return g
  | .error fault => .error (error a (.path fault))

/-- Applies augments in the order of the list. -/
def applyInTurn (model : DeclaredModel) (f : Forest) (as : List Node) : Result Forest :=
  as.foldlM (applyOne model) f

theorem applyOne_eq_ok_iff_attempt :
    applyOne model f a = .ok g ↔ attempt model f a = .ok (.ok g) := by
  unfold applyOne
  cases attempt model f a with
  | error e => simp [bind, Except.bind]
  | ok r => cases r <;> simp [bind, Except.bind, pure, Except.pure]

theorem applyOne_eq_ok (distinct : (f.map (·.id)).Nodup) : applyOne model f a = .ok g
    ↔ ∃ ks n, pathOf? model a = some ks ∧ f.descend? ks = some n ∧ Admits a n
      ∧ Forest.grow (copies a) f ks = g :=
  applyOne_eq_ok_iff_attempt.trans (attempt_eq_ok distinct)

theorem applyInTurn_cons :
    applyInTurn model f (a :: as) = applyOne model f a >>= fun g => applyInTurn model g as :=
  List.foldlM_cons

theorem applyInTurn_cons_eq_ok : applyInTurn model f (a :: as) = .ok h
    ↔ ∃ g, applyOne model f a = .ok g ∧ applyInTurn model g as = .ok h := by
  rw [applyInTurn_cons, Result.bind_eq_ok]

theorem applyInTurn_append : applyInTurn model f (as ++ bs)
    = applyInTurn model f as >>= fun g => applyInTurn model g bs := List.foldlM_append

theorem applyInTurn_append_eq_ok : applyInTurn model f (as ++ bs) = .ok h
    ↔ ∃ g, applyInTurn model f as = .ok g ∧ applyInTurn model g bs = .ok h := by
  rw [applyInTurn_append, Result.bind_eq_ok]

theorem map_id_of_attempt (h : attempt model f a = .ok (.ok g)) :
    g.map (·.id) = f.map (·.id) := by
  unfold attempt at h
  split at h
  · cases h
  · obtain ⟨x, _, h⟩ := Result.bind_eq_ok.1 h
    rw [← Except.ok.inj (Except.ok.inj h)]
    exact Forest.map_id_update

theorem map_id_of_applyOne (h : applyOne model f a = .ok g) : g.map (·.id) = f.map (·.id) :=
  map_id_of_attempt (applyOne_eq_ok_iff_attempt.1 h)

theorem map_id_of_applyInTurn (h : applyInTurn model f as = .ok g) :
    g.map (·.id) = f.map (·.id) :=
  Result.foldlM_invariant (P := fun g => g.map (·.id) = f.map (·.id))
    (fun _ _ _ hkept hstep => (map_id_of_applyOne hstep).trans hkept) rfl h

/-- What one augment keeps where no two trees have one identifier, augments that are applied in turn
keep. -/
theorem applyInTurn_invariant {P : Forest → Prop}
    (hstep : ∀ a ∈ as, ∀ g h, (g.map (·.id)).Nodup → P g → applyOne model g a = .ok h → P h)
    (distinct : (f.map (·.id)).Nodup) (hf : P f) (hrun : applyInTurn model f as = .ok g) : P g := by
  have hkept : (g.map (·.id)).Nodup ∧ P g := by
    refine Result.foldlM_invariant_of_mem (P := fun g => (g.map (·.id)).Nodup ∧ P g)
      ?_ ⟨distinct, hf⟩ hrun
    rintro a ha g h ⟨hdistinct, hg⟩ hone
    exact ⟨by rwa [map_id_of_applyOne hone], hstep a ha g h hdistinct hg hone⟩
  exact hkept.2

/-! ## Applying the augments of a module -/

/-- Augments that are left are tried again if there are fewer of them than before. -/
theorem applyModule_eq (augments : List Node) : applyModule model f augments =
    match sweep model f augments with
    | .error e => .error e
    | .ok (g, []) => .ok g
    | .ok (g, (a, fault) :: rest) =>
      if rest.length + 1 < augments.length then applyModule model g (a :: rest.map (·.1))
      else .error (error a (.path fault)) := by
  rw [applyModule]
  split
  · rename_i e hsweep
    rw [hsweep]
  · rename_i g hsweep
    rw [hsweep]
  · rename_i g a fault rest hsweep
    rw [hsweep]
    dsimp only
    split <;> rfl

end Augmentation

end YangSchema
