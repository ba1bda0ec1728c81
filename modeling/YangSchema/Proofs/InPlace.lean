import YangSchema.Proofs.Adjusting

/-!
# Instantiating in place

Instantiating a declaration in an arena adds the nodes that copying it gives, in new cells under the
parent, and changes nothing else (`Instantiator.instantiate_follows`). This is so from every state,
whatever groupings are being expanded: by induction on the depth for groupings, and for the
declarations inside one by induction on the declaration. So the arena of a module holds the nodes of
the module (`Instantiator.instantiate_module`).
-/

namespace YangSchema

namespace Instantiator

open Expansion (Site isAugment)
open Layout (forestCells forestSlots slot node)
open Arena (Appends Rewrites Holds)

variable {w : Instantiator} {q : Nat} {c : Cell} {A B : Arena} {ts : List Layout} {e : Expansion}

/-! ## Lists of declarations -/

variable {content : Site → Nat → Action Unit} {grouping : Site → Building (List Node)}
  {stack : List Definition.Pending} {src : DeclaredSource} {addedByUses isMember : Bool}
  {p : Binding → Bool} {ds : List Declaration} {d : Declaration}

/-- Applies one `augment` statement to the nodes that a `uses` has brought. -/
def augmentOne (e : Expansion) (content : Site → Nat → Action Unit) (source : DeclaredSource)
    (added : List Nat) (a : Declaration) : Action Unit := do
  let target ← augmentTarget source.id a.label added
  let existing ← schemaChildren target
  let first := (← cell target).children.length
  inside source a (instantiateAll e content source true target Node.isAugmentContent a.children)
  let new ← childrenFrom target first
  let conditions := Node.conditionsOfDeclarations source.id a.children
  new.forM (markAdded source.id a.label conditions existing)

theorem augmentAll_eq (added : List Nat) (ds : List Declaration) :
    augmentAll e content src added ds
      = (ds.filter isAugment).forM (augmentOne e content src added) := by
  induction ds with
  | nil => rw [augmentAll]; rfl
  | cons d ds ih =>
    obtain ⟨label, children⟩ := d
    rw [augmentAll]
    by_cases h : label.binding = .builtin .augment
    · have hfilter : isAugment ⟨label, children⟩ = true := decide_eq_true h
      rw [if_pos h, List.filter_cons_of_pos hfilter]
      show _ = augmentOne e content src added _ >>= fun _ => _
      simp only [ih, augmentOne, bind_assoc]
    · have hfilter : ¬ isAugment ⟨label, children⟩ = true := by
        simpa [isAugment] using h
      rw [if_neg h, List.filter_cons_of_neg hfilter, ih]

theorem instantiate_of_uses (h : IsUses d) :
    instantiate e content src addedByUses q d = (do
      let scope := (← get).scope
      let g ← ofBuilding (Definition.resolve e.model src .grouping d.label scope)
      let first := (← cell q).children.length
      content ⟨src.id, d.label.location, g⟩ q
      let added ← childrenFrom q first
      added.forM (relabel (NodeLabel.addConditions
        (Node.conditionsOfDeclarations src.id d.children)))
      (d.children.filter (Declaration.is · .refine)).forM (refine e.module src.id added)
      augmentAll e content src added d.children) := by
  obtain ⟨label, children⟩ := d
  rw [instantiate]
  simp only [show label.binding = .builtin .uses from h, if_true]

theorem instantiate_of_not_uses (h : ¬ IsUses d) :
    instantiate e content src addedByUses q d = (do
      let scope := (← get).scope
      let isMember : Bool := (← cell q).label.binding = .builtin .type
      let type ← ofBuilding (e.typeOf src scope isMember d)
      let i ← add q { NodeLabel.ofDeclared e.module src.id addedByUses d.label with type := type }
      inside src d (instantiateAll e content src addedByUses i (fun _ => true) d.children)) := by
  obtain ⟨label, children⟩ := d
  rw [instantiate]
  simp only [show ¬ label.binding = .builtin .uses from h, if_false]

/-- A node of the arena that is bound to `b`. -/
def IsAt (A : Arena) (q : Nat) (b : Binding) : Prop :=
  ∃ c, A[q]? = some c ∧ c.label.binding = b

theorem IsAt.of_appends {b : Binding} (h : IsAt A q b) (hadd : Appends A B q ts) : IsAt B q b := by
  obtain ⟨c, hc, hb⟩ := h
  obtain ⟨c', hc', hB⟩ := hadd.parent
  cases hc.symm.trans hc'
  exact ⟨_, hB, hb⟩

/-- The arena is `A` with some nodes added under a parent. -/
def Adds (A : Arena) (q : Nat) (nodes : List Node) (B : Arena) (_ : Unit) : Prop :=
  ∃ ts, Appends A B q ts ∧ ts.map node = nodes

/-- While the groupings of a stack are being expanded, `content` adds what `grouping` gives. -/
def Expands (stack : List Definition.Pending) (grouping : Site → Building (List Node))
    (content : Site → Nat → Action Unit) : Prop :=
  ∀ site q w, w.usesStack = stack → q < w.tree.length →
    Follows w (Adds w.tree q) (grouping site) (content site q)

/-- Instantiating a declaration adds what copying it gives. -/
def AddsCopy (e : Expansion) (stack : List Definition.Pending)
    (grouping : Site → Building (List Node)) (content : Site → Nat → Action Unit)
    (d : Declaration) : Prop :=
  ∀ src addedByUses isMember q b w, w.usesStack = stack → IsAt w.tree q b →
    (Declaration.is d .type = true → isMember = decide (b = .builtin .type)) →
    Follows w (Adds w.tree q) (Expansion.copy e grouping src addedByUses isMember w.scope d)
      (instantiate e content src addedByUses q d)

theorem copyAll_follows (src : DeclaredSource) (addedByUses isMember : Bool) (p : Binding → Bool)
    {b : Binding} (h : ∀ d ∈ ds, AddsCopy e stack grouping content d)
    (hstack : w.usesStack = stack) (hq : IsAt w.tree q b)
    (hmember : ∀ d ∈ ds, p d.label.binding = true → Declaration.is d .type = true →
      isMember = decide (b = .builtin .type)) :
    Follows w (Adds w.tree q)
      (Expansion.copyAll e grouping src addedByUses isMember w.scope p ds)
      (instantiateAll e content src addedByUses q p ds) := by
  induction ds generalizing w with
  | nil =>
    rw [Expansion.copyAll, instantiateAll]
    obtain ⟨c, hc, _⟩ := hq
    exact .pure ⟨[], .refl hc, rfl⟩
  | cons d ds ih =>
    obtain ⟨hd, hds⟩ := List.forall_mem_cons.1 h
    obtain ⟨hmemberd, hmemberds⟩ := List.forall_mem_cons.1 hmember
    rw [Expansion.copyAll, instantiateAll]
    by_cases hp : p d.label.binding = true
    · rw [if_pos hp, if_pos hp]
      refine (hd src addedByUses isMember q b w hstack hq (hmemberd hp)).bind ?_
      rintro _ B _ u ⟨ts, hadd, rfl⟩
      refine (ih (w := { w with tree := B, types := u }) hds hstack (hq.of_appends hadd)
        hmemberds).map_left ?_
      rintro _ C _ ⟨us, hadd', rfl⟩
      exact ⟨ts ++ us, hadd.trans hadd', List.map_append⟩
    · rw [if_neg hp, if_neg hp]
      exact ih hds hstack hq hmemberds

/-! ## Declarations -/

theorem not_type_of_augmentContent (hp : Node.isAugmentContent d.label.binding = true) :
    ¬ Declaration.is d .type = true := by
  intro htype
  have hkind : d.label.binding.kind? = some .type := by
    simpa [Declaration.is, Declaration.kind?] using htype
  rw [Node.isAugmentContent, Node.isGroupingContent, hkind] at hp
  exact absurd hp (by decide)

theorem augmentOne_follows {slots : List Nat} {nodes : List Node} {a : Declaration}
    (hchildren : ∀ c ∈ a.children, AddsCopy e stack grouping content c)
    (hstack : w.usesStack = stack) (h : Brought A q slots nodes w.tree) :
    Follows w (fun nodes' B _ => Brought A q slots nodes' B)
      (Expansion.augmentOne e grouping src w.scope nodes a)
      (augmentOne e content src slots a) := by
  obtain ⟨ts, hadd, rfl, rfl⟩ := h
  unfold Expansion.augmentOne augmentOne
  refine (augmentTarget_follows hadd a.label).bind ?_
  rintro ⟨address, _⟩ _ _ u ⟨rfl, s, hs, rfl, rfl⟩
  obtain ⟨parent, hholds, hfocus⟩ := hadd.exists_focus hs
  refine .read (schemaChildren_eq hholds) (.read (cell_eq hholds.root) ?_)
  have hat : IsAt w.tree (slot s) s.label.2.binding := ⟨_, hholds.root, rfl⟩
  have hcopy := copyAll_follows (w := { w with types := u, scope := w.scope.enter src a }) src true
    false Node.isAugmentContent hchildren hstack hat fun c _ hp htype =>
      absurd htype (not_type_of_augmentContent hp)
  refine (Follows.inside hcopy).bind ?_
  rintro _ B _ v ⟨new, hnew, rfl⟩
  obtain ⟨c, hc, hB⟩ := hnew.parent
  cases hholds.root.symm.trans hc
  refine .read (childrenFrom_eq hB rfl) ?_
  refine (augment_follows (w := { w with tree := B, types := v }) _ _ _ hholds hnew).map_left ?_
  rintro _ C _ ⟨s', hr, rfl⟩
  exact ⟨_, hfocus C s' hr, Layout.map_node_forestReplace s' ts address,
    Layout.map_slot_forestReplace hs hr.slot⟩

/-- Instantiating a declaration adds what copying it gives, if expanding groupings does. -/
theorem addsCopy (hcontent : Expands stack grouping content) (d : Declaration) :
    AddsCopy e stack grouping content d := by
  induction d using Tree.inductBelow with
  | step d ih =>
    intro src addedByUses isMember q b w hstack hq hmember
    obtain ⟨c, hc, rfl⟩ := hq
    by_cases huses : IsUses d
    · rw [Expansion.copy_of_uses huses, instantiate_of_uses huses]
      have hlt := (List.getElem?_eq_some_iff.1 hc).1
      refine .read rfl (.bind_ofBuilding fun g t => .read (cell_eq hc) ?_)
      refine (hcontent _ q { w with types := t } hstack hlt).bind ?_
      rintro _ B _ u ⟨ts, hadd, rfl⟩
      obtain ⟨c', hc', hB⟩ := hadd.parent
      cases hc.symm.trans hc'
      refine .read (childrenFrom_eq hB rfl) ?_
      obtain ⟨C, hrun, hbrought⟩ := relabelAll_follows (w := { w with tree := B, types := u })
        ⟨ts, hadd, rfl, rfl⟩ (Node.conditionsOfDeclarations src.id d.children)
      refine .step hrun ((refineAll_follows hbrought _).bind ?_)
      intro refined D _ v hrefined
      rw [Expansion.augmentAll_eq, augmentAll_eq]
      refine (Follows.foldlM (fun a ha nodes E x hnodes => ?_) hrefined).mono ?_
      · have hchild := List.mem_of_mem_filter ha
        exact augmentOne_follows (w := { w with tree := E, types := x })
          (fun c hc => ih a hchild c (Tree.mem_subtrees_of_mem_child hc (Tree.mem_subtrees_self c)))
          hstack hnodes
      · rintro nodes E _ ⟨us, hadd', rfl, _⟩
        exact ⟨us, hadd', rfl⟩
    · rw [Expansion.copy_of_not_uses huses, instantiate_of_not_uses huses]
      have htype : e.typeOf src w.scope isMember d
          = e.typeOf src w.scope (decide (c.label.binding = .builtin .type)) d := by
        unfold Expansion.typeOf
        by_cases ht : Declaration.is d .type = true
        · rw [hmember ht]
        · simp [ht]
      rw [htype]
      refine .read rfl (.read (cell_eq hc) (.bind_ofBuilding fun type u => .step (add_eq hc) ?_))
      let l := { NodeLabel.ofDeclared e.module src.id addedByUses d.label with type := type }
      have hcopy := copyAll_follows
        (w := { w with tree := w.tree.add q l, types := u, scope := w.scope.enter src d })
        src addedByUses (d.label.binding = .builtin .type) (fun _ => true)
        (fun c hc => ih c hc c (Tree.mem_subtrees_self c)) hstack
        ⟨_, Arena.getElem?_add_new, rfl⟩ fun _ _ _ _ => rfl
      refine (Follows.inside hcopy).map_left ?_
      rintro _ B _ ⟨ts, hadd, rfl⟩
      refine ⟨_, .under hc hadd, ?_⟩
      rw [List.map_singleton, Layout.node, Tree.map, Tree.mapForest_eq]
      rfl

/-! ## Groupings -/

theorem not_type_of_groupingContent (hp : Node.isGroupingContent d.label.binding = true) :
    ¬ Declaration.is d .type = true :=
  not_type_of_augmentContent (by rw [Node.isAugmentContent, hp]; rfl)

/-- Expanding a grouping adds what the grouping brings, whatever groupings are being expanded. -/
theorem expands (e : Expansion) (depth : Nat) (stack : List Definition.Pending) :
    Expands stack (e.ofGrouping depth stack) (expandGrouping e depth) := by
  induction depth generalizing stack with
  | zero =>
    intro site q w hstack _
    subst hstack
    exact .read rfl (.fail _)
  | succ depth ih =>
    intro site q w hstack hq
    subst hstack
    rw [expandGrouping]
    refine .read rfl ?_
    dsimp only
    by_cases hpending : site.definition.isPending w.usesStack = true
    · rw [Expansion.ofGrouping_of_pending hpending, if_pos hpending]
      exact .fail _
    · rw [Expansion.ofGrouping_succ hpending, if_neg hpending]
      refine .expanding ?_
      exact copyAll_follows (w := { w with
          usesStack := w.usesStack ++ [Expansion.entry site.definition]
          scope := site.definition.inner })
        site.definition.source true false Node.isGroupingContent (fun c _ => addsCopy (ih _) c) rfl
        ⟨_, List.getElem?_eq_getElem hq, rfl⟩
        fun c _ hp htype => absurd htype (not_type_of_groupingContent hp)

/-- From every state, instantiating a declaration under a node of the arena adds the nodes that the
declaration becomes. -/
theorem instantiate_follows (e : Expansion) (depth : Nat) (src : DeclaredSource)
    (addedByUses : Bool) (d : Declaration) (hc : w.tree[q]? = some c) :
    Follows w (Adds w.tree q)
      (Expansion.copy e (e.ofGrouping depth w.usesStack) src addedByUses
        (c.label.binding = .builtin .type) w.scope d)
      (instantiate e (expandGrouping e depth) src addedByUses q d) :=
  addsCopy (expands e depth w.usesStack) d src addedByUses _ q _ w rfl ⟨c, hc, rfl⟩ fun _ => rfl

/-! ## Modules -/

/-- Instantiates the top-level statements of a source of the family of a module. -/
def instantiateSource (e : Expansion) (s : DeclaredSource) : Action Unit :=
  instantiateAll e (expandGrouping e (e.model.countOfKind .grouping)) s false 0
    (fun b => s.id = e.module || Expansion.isBody b) s.root.children

/-- The state in which there is nothing but the root of the module. -/
def start (e : Expansion) (root : NodeLabel) : Instantiator :=
  ⟨[⟨root, [], none⟩], [], [], .top e.module⟩

/-- Instantiating the sources of a module one after the other adds the nodes of the module to its
root. -/
theorem instantiate_module (e : Expansion) {root : NodeLabel}
    (hroot : root.binding ≠ .builtin .type) :
    Follows (start e root) (Adds (start e root).tree 0) e.nodes
      ((e.model.family e.module).forM (instantiateSource e)) := by
  have hall : ∀ (ss : List DeclaredSource) (w : Instantiator), w.usesStack = [] →
      w.scope = .top e.module → IsAt w.tree 0 root.binding →
      Follows w (fun parts B b => Adds w.tree 0 parts.flatten B b) (ss.mapM e.ofSource)
        (ss.forM (instantiateSource e)) := by
    intro ss
    induction ss with
    | nil =>
      rintro w _ _ ⟨c, hc, _⟩
      exact .pure ⟨[], .refl hc, rfl⟩
    | cons s ss ih =>
      intro w hstack hscope hat
      rw [List.mapM_cons]
      show Follows w _ _ (instantiateSource e s >>= fun _ => ss.forM (instantiateSource e))
      have hsource : Follows w (Adds w.tree 0) (e.ofSource s) (instantiateSource e s) := by
        unfold Expansion.ofSource
        rw [← hscope]
        refine copyAll_follows s false false _ (fun c _ => addsCopy (expands e _ []) c) hstack hat
          ?_
        exact fun _ _ _ _ => (decide_eq_false hroot).symm
      refine hsource.bind ?_
      rintro _ B _ u ⟨ts, hadd, rfl⟩
      refine (ih { w with tree := B, types := u } hstack hscope (hat.of_appends hadd)).map_left ?_
      rintro parts C _ ⟨us, hadd', hnodes⟩
      exact ⟨ts ++ us, hadd.trans hadd', by rw [List.map_append, hnodes, List.flatten_cons]⟩
  unfold Expansion.nodes
  exact (hall _ (start e root) rfl rfl ⟨_, rfl, rfl⟩).map_left fun _ _ _ h => h

end Instantiator

end YangSchema
