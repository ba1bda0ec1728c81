import YangSchema.Proofs.Following

/-!
# Adjusting in place what a `uses` has brought

The nodes that a `uses` has brought are in the arena, and the program has their slots
(`Instantiator.Brought`). Giving them conditions, refining them and marking what has been added to
them follows what `Expansion` does to the nodes themselves: each step rewrites one of them, and what
is in the arena stays what has been added to it. No node loses its slot at the top, so that the list
of slots stays the one that was read in the beginning.
-/

namespace YangSchema

namespace Instantiator

open Layout (forestCells forestSlots slot node)
open Arena (Appends Rewrites Holds)

variable {w : Instantiator} {q : Nat} {c : Cell} {A : Arena} {s : Layout} {ts : List Layout}
  {e : Expansion} {source : SourceId}

/-! ## Finding nodes -/

theorem addressIn?_ne_nil {ns : List Node} {steps : List Step} :
    Node.addressIn? ns steps ≠ some [] := by
  cases steps with
  | nil => simp [Node.addressIn?]
  | cons step rest =>
    rw [Node.addressIn?]
    intro h
    obtain ⟨k, _, h⟩ := Option.bind_eq_some_iff.1 h
    obtain ⟨n, _, h⟩ := Option.bind_eq_some_iff.1 h
    split at h
    · cases h
    · obtain ⟨p, _, h⟩ := Option.bind_eq_some_iff.1 h
      cases h

/-- A path leads from nodes in the arena where it leads from the nodes themselves. -/
theorem find?_eq (hhas : w.tree.Has (forestCells q ts)) (steps : List Step) :
    find? (ts.map slot) steps w = .ok (((Node.addressIn? (ts.map node) steps).bind
      (Tree.forestSubtree? ts)).map slot, w) := by
  induction steps generalizing ts q with
  | nil => rfl
  | cons step rest ih =>
    let P (t : Layout) : Bool := t.label.2.isSchemaNode && t.label.2.schemaName == step.name
    have hplace : Node.childPlace? (fun _ => true) step.name (ts.map node) = ts.findIdx? P := by
      unfold Node.childPlace?
      rw [List.findIdx?_map]
      congr 1
      funext t
      simp [P, Node.isSchemaNode, Node.schemaName]
    have hfound : (ts.map Tree.label).find?
          (fun x => x.2.isSchemaNode && x.2.schemaName == step.name)
        = ((ts.findIdx? P).bind (ts[·]?)).map Tree.label := by
      rw [List.find?_map, ← List.find?_eq_bind_findIdx?_getElem?]
      rfl
    rw [find?, bind_of_ok (labels_eq hhas), hfound, Node.addressIn?, hplace]
    cases hk : ts.findIdx? P with
    | none => rfl
    | some k =>
      obtain ⟨hlt, -⟩ := List.findIdx?_eq_some_iff_getElem.1 hk
      have ht : ts[k]? = some ts[k] := List.getElem?_eq_getElem hlt
      generalize ts[k] = t at ht
      have htmem : t ∈ ts := List.mem_of_getElem? ht
      have hnode : (ts.map node)[k]? = some (node t) := by rw [List.getElem?_map, ht]; rfl
      simp only [Option.bind_some, ht, Option.map_some, Option.bind_eq_bind, hnode]
      by_cases hrest : rest.isEmpty
      · simp only [hrest, if_true, Option.pure_def, Option.bind_some, Tree.forestSubtree?, ht,
          Tree.subtree?_nil, Option.map_some]
        rfl
      · have hcells : w.tree.Has (t.cells q) := fun x hx =>
          hhas x (Layout.mem_forestCells.2 ⟨t, htmem, hx⟩)
        rw [Layout.cells_eq] at hcells
        obtain ⟨hcell, hchildren⟩ := Arena.has_cons.1 hcells
        simp only [hrest, if_false, Bool.false_eq_true]
        rw [show t.label.1 = slot t from rfl, bind_of_ok (cell_eq hcell), ih hchildren,
          Layout.children_node]
        cases haddress : Node.addressIn? (t.children.map node) rest with
        | none => rfl
        | some p =>
          cases p with
          | nil => exact absurd haddress addressIn?_ne_nil
          | cons i p =>
            simp only [Option.bind_some, Option.pure_def, Tree.forestSubtree?, ht,
              Tree.subtree?_cons]

theorem findRelative_eq (hhas : w.tree.Has (forestCells q ts)) (path : String) :
    findRelative (ts.map slot) path w
      = .ok ((((SchemaPath.steps? false path).bind (Node.addressIn? (ts.map node))).bind
        (Tree.forestSubtree? ts)).map slot, w) := by
  unfold findRelative
  cases SchemaPath.steps? false path with
  | none => rfl
  | some steps => exact find?_eq hhas steps

/-! ## Adding declarations -/

theorem addDeclaration_eq (module source : SourceId) (d : Declaration)
    (hq : q < w.tree.length) : ∃ t B,
      addDeclaration module source q d w = .ok ((), { w with tree := B })
        ∧ Appends w.tree B q [t] ∧ node t = Node.ofDeclaration module source true d := by
  induction d using Tree.induct generalizing q w with
  | step d ih =>
    have all : ∀ (ds : List Declaration) (q : Nat) (w : Instantiator), ds ⊆ d.children →
        q < w.tree.length → ∃ ts B,
          addDeclarations module source q ds w = .ok ((), { w with tree := B })
            ∧ Appends w.tree B q ts
            ∧ ts.map node = ds.map (Node.ofDeclaration module source true) := by
      intro ds
      induction ds with
      | nil =>
        intro q w _ hq
        exact ⟨[], w.tree, rfl, .refl (List.getElem?_eq_getElem hq), rfl⟩
      | cons c ds ihds =>
        intro q w hds hq
        obtain ⟨hc, hds⟩ := List.cons_subset.1 hds
        obtain ⟨t, B, hfirst, hadd, hnode⟩ := ih c hc hq
        obtain ⟨ts, C, hrest, hadd', hnodes⟩ := ihds q { w with tree := B } hds
          (Nat.lt_of_lt_of_le hq hadd.length_le)
        refine ⟨t :: ts, C, ?_, hadd.trans hadd', ?_⟩
        · rw [addDeclarations]
          exact (bind_of_ok hfirst).trans hrest
        · rw [List.map_cons, List.map_cons, hnode, hnodes]
    obtain ⟨label, children⟩ := d
    have hcell := List.getElem?_eq_getElem hq
    let l := NodeLabel.ofDeclared module source true label
    obtain ⟨ts, B, hrun, hadd, hnodes⟩ := all children w.tree.length
      { w with tree := w.tree.add q l } (List.Subset.refl _)
      (by rw [Arena.length_add]; exact Nat.lt_succ_self _)
    refine ⟨⟨(w.tree.length, l), ts⟩, B, ?_, .under hcell hadd, ?_⟩
    · rw [addDeclaration]
      exact (bind_of_ok (add_eq hcell)).trans hrun
    · rw [Layout.node, Tree.map, Tree.mapForest_eq, Node.ofDeclaration, Tree.map,
        Tree.mapForest_eq]
      exact congrArg (Tree.mk l) hnodes

/-! ## Refining -/

/-- The children of a node can be detached one after the other. -/
theorem detachAll_eq {out : List Layout} (h : w.tree.Holds q s) (hout : out.Sublist s.children) :
    ∃ B, (out.map slot).forM detach w = .ok ((), { w with tree := B })
      ∧ Rewrites w.tree B q s (s.removeChildren fun u => slot u ∈ out.map slot) := by
  induction out generalizing w s with
  | nil =>
    refine ⟨w.tree, rfl, ?_⟩
    have hnone : (s.removeChildren fun u => slot u ∈ ([] : List Layout).map slot) = s := by
      obtain ⟨a, cs⟩ := s
      simp [Tree.removeChildren]
    rw [hnone]
    exact .refl h
  | cons c out ih =>
    have hc : c ∈ s.children := hout.subset List.mem_cons_self
    have hr := Rewrites.detach h hc
    have hnodup := (h.distinct_children.2.sublist (Layout.map_slot_sublist s.children)).sublist
      (hout.map slot)
    rw [List.map_cons, List.nodup_cons] at hnodup
    -- the other children to be detached are left
    have hrest : out.Sublist (s.removeChildren fun u => slot u == slot c).children := by
      have hfilter : out.filter (fun u => !(slot u == slot c)) = out := by
        refine List.filter_eq_self.2 fun u hu => ?_
        have hne : slot u ≠ slot c := fun heq => hnodup.1 (heq ▸ List.mem_map_of_mem hu)
        simpa using hne
      exact hfilter ▸ ((List.sublist_cons_self c out).trans hout).filter _
    obtain ⟨B, hrun, hr'⟩ := ih (w := { w with tree := w.tree.detach (slot c) }) hr.holds hrest
    refine ⟨B, ?_, ?_⟩
    · show (detach (slot c) >>= fun _ => (out.map slot).forM detach) w = _
      exact (bind_of_ok (detach_eq (h.child hc) rfl h.root)).trans hrun
    · have hall : ((s.removeChildren fun u => slot u == slot c).removeChildren
            fun u => slot u ∈ out.map slot)
          = s.removeChildren fun u => slot u ∈ (c :: out).map slot := by
        simp only [Tree.removeChildren, List.filter_filter]
        congr 2
        funext u
        rw [Bool.eq_iff_iff]
        simp [and_comm]
      exact hall ▸ hr.trans hr'

/-- What stands at a node after some steps of refining it, in the place of `s`. -/
def Refined (A : Arena) (q : Nat) (s : Layout) (n : Node) (B : Arena) : Prop :=
  ∃ s', Rewrites A B q s s' ∧ node s' = n ∧ s'.label = s.label

theorem makeRoom_follows (h : w.tree.Holds q s) (property : Declaration) :
    Follows w (fun n B _ => Refined w.tree q s n B)
      (liftM (Expansion.makeRoom source property (node s)))
      (makeRoom source property (slot s) s.label.2.kind?) := by
  have hsame : Refined w.tree q s (node s) w.tree := ⟨s, .refl h, rfl, rfl⟩
  have hkind : Node.kind? (node s) = s.label.2.kind? :=
    congrArg NodeLabel.kind? (Layout.label_node s)
  unfold Expansion.makeRoom makeRoom
  rw [hkind]
  cases property.kind? with
  | none => exact .pure hsame
  | some kind =>
    cases s.label.2.kind? with
    | none => exact .pure hsame
    | some targetKind =>
      dsimp only
      split
      · exact .fail _
      · split
        · let P (u : Layout) : Bool := Node.is (node u) kind
          have hlabels : ((s.children.map Tree.label).filter fun x => x.2.kind? == some kind).map
              (·.1) = (s.children.filter P).map slot := by
            rw [List.filter_map, List.map_map]
            congr 2
            funext u
            simp [P, Node.is, Node.kind?]
          obtain ⟨B, hrun, hr⟩ := detachAll_eq h (List.filter_sublist (p := P))
          have hout : (s.removeChildren fun u => slot u ∈ (s.children.filter P).map slot)
              = s.removeChildren P := by
            have hinj := h.distinct_children.2.sublist (Layout.map_slot_sublist s.children)
            unfold Tree.removeChildren
            congr 1
            refine List.filter_congr fun u hu => ?_
            rw [Bool.eq_iff_iff]
            simp only [Bool.not_eq_true', decide_eq_false_iff_not, List.mem_map, List.mem_filter,
              not_exists, not_and]
            constructor
            · intro hnot
              exact Bool.eq_false_iff.2 fun hP => hnot u ⟨hu, hP⟩ rfl
            · rintro hP v ⟨hv, hPv⟩ heq
              rw [List.inj_on_of_nodup_map hinj hv hu heq, hP] at hPv
              cases hPv
          refine .read (cell_eq h.root) (.read (labels_eq h.children) ?_)
          rw [hlabels]
          refine .of_eq hrun ⟨_, hr, ?_, rfl⟩
          rw [hout]
          exact Layout.node_removeChildren (P := (Node.is · kind)) s
        · exact .pure hsame

theorem refineProperty_follows (e : Expansion) (source : SourceId) (h : w.tree.Holds q s)
    (property : Declaration) :
    Follows w (fun n B _ => Refined w.tree q s n B)
      (liftM (e.refineProperty source (node s) property))
      (refineProperty e.module source (slot s) s.label.2.kind? property) := by
  unfold Expansion.refineProperty refineProperty
  rw [Building.lift_bind]
  refine (makeRoom_follows h property).bind ?_
  rintro n B _ u ⟨s', hr, rfl, hlabel⟩
  have hslot : slot s < B.length :=
    hr.slot ▸ hr.holds.lt (Layout.slot_mem_slots s')
  obtain ⟨t, C, hrun, hadd, hnode⟩ :=
    addDeclaration_eq (w := { w with tree := B, types := u }) e.module source property hslot
  refine .of_eq hrun ⟨s'.addChildren [t], hr.trans (.addChildren hr.holds (hr.slot ▸ hadd)), ?_,
    hlabel⟩
  rw [Layout.node_addChildren, List.map_singleton, hnode]
  rfl

/-- The arena holds the nodes that a `uses` has brought, at their slots. -/
def Brought (A : Arena) (q : Nat) (slots : List Nat) (nodes : List Node) (B : Arena) : Prop :=
  ∃ ts, Appends A B q ts ∧ ts.map node = nodes ∧ ts.map slot = slots

theorem refine_follows {slots : List Nat} {nodes : List Node} (h : Brought A q slots nodes w.tree)
    (d : Declaration) :
    Follows w (fun nodes' B _ => Brought A q slots nodes' B)
      (liftM (e.refine source nodes d)) (refine e.module source slots d) := by
  obtain ⟨ts, hadd, rfl, rfl⟩ := h
  unfold Expansion.refine refine
  refine .read (findRelative_eq hadd.has _) ?_
  cases (SchemaPath.steps? false (Declaration.argumentText d)).bind
    (Node.addressIn? (ts.map node)) with
  | none => exact .fail _
  | some p =>
    dsimp only [Option.bind_some]
    rw [Layout.forestSubtree?_map_node]
    cases hs : Tree.forestSubtree? ts p with
    | none => exact .fail _
    | some s =>
      obtain ⟨parent, hholds, hfocus⟩ := hadd.exists_focus hs
      dsimp only [Option.map_some]
      refine .read (cell_eq hholds.root) ?_
      rw [Building.lift_bind, Building.lift_foldlM]
      have hloop : Follows w (fun n B _ => Refined w.tree parent s n B)
          (d.children.foldlM (fun n property => liftM (e.refineProperty source n property))
            (node s))
          (d.children.forM (refineProperty e.module source (slot s) s.label.2.kind?)) := by
        refine .foldlM ?_ ⟨s, .refl hholds, rfl, rfl⟩
        rintro property _ _ B u ⟨s', hr, rfl, hlabel⟩
        have hstep := refineProperty_follows (w := { w with tree := B, types := u }) e source
          hr.holds property
        rw [hr.slot, hlabel] at hstep
        refine hstep.mono ?_
        rintro n C _ ⟨s'', hr', hnode, hlabel'⟩
        exact ⟨s'', hr.trans hr', hnode, hlabel'.trans hlabel⟩
      refine hloop.map_left ?_
      rintro n B _ ⟨s', hr, rfl, _⟩
      refine ⟨Tree.forestReplace s' ts p, hfocus B s' hr, Layout.map_node_forestReplace s' ts p, ?_⟩
      exact Layout.map_slot_forestReplace hs hr.slot

theorem refineAll_follows {slots : List Nat} {nodes : List Node}
    (h : Brought A q slots nodes w.tree) (ds : List Declaration) :
    Follows w (fun nodes' B _ => Brought A q slots nodes' B)
      (liftM (e.refineAll source nodes ds)) (ds.forM (refine e.module source slots)) := by
  unfold Expansion.refineAll
  rw [Building.lift_foldlM]
  exact .foldlM (fun d _ nodes' B u hb => refine_follows hb d) h

/-! ## Augmenting -/

theorem augmentTarget_follows (h : Appends A w.tree q ts) (d : Declared) :
    Follows w (fun r B i => B = w.tree ∧ ∃ s, Tree.forestSubtree? ts r.1 = some s ∧ node s = r.2
        ∧ slot s = i)
      (liftM (Expansion.augmentTarget source d (ts.map node)))
      (augmentTarget source d (ts.map slot)) := by
  unfold Expansion.augmentTarget augmentTarget
  refine .read (findRelative_eq h.has _) ?_
  cases (SchemaPath.steps? false (d.argument.getD "")).bind (Node.addressIn? (ts.map node)) with
  | none => exact .fail _
  | some p =>
    dsimp only [Option.bind_some]
    rw [Layout.forestSubtree?_map_node]
    cases hs : Tree.forestSubtree? ts p with
    | none => exact .fail _
    | some s =>
      obtain ⟨parent, hholds, _⟩ := h.exists_focus hs
      dsimp only [Option.map_some]
      refine .read (cell_eq hholds.root) ?_
      have hkind : Node.kind? (node s) = s.label.2.kind? :=
        congrArg NodeLabel.kind? (Layout.label_node s)
      rw [hkind]
      dsimp only
      split
      · exact .pure ⟨rfl, s, hs, rfl, rfl⟩
      · exact .fail _

/-- Nodes that have been added can be rewritten one after the other. -/
theorem forM_roots (pre : List Layout) {ts post : List Layout} {act : Nat → Action Unit}
    (g : Layout → Layout)
    (h : Appends A w.tree q (pre ++ (ts ++ post)))
    (hact : ∀ t ∈ ts, ∀ B us parent, Appends A B q us → B.Holds parent t →
      ∃ C, act (slot t) { w with tree := B } = .ok ((), { w with tree := C })
        ∧ Rewrites B C parent t (g t)) :
    ∃ B, (ts.map slot).forM act w = .ok ((), { w with tree := B })
      ∧ Appends A B q (pre ++ (ts.map g ++ post)) := by
  induction ts generalizing w pre with
  | nil => exact ⟨w.tree, rfl, h⟩
  | cons t ts ih =>
    rw [List.cons_append] at h
    have hat : Tree.forestSubtree? (pre ++ t :: (ts ++ post)) [pre.length] = some t := by
      simp [Tree.forestSubtree?]
    obtain ⟨parent, hholds, hfocus⟩ := h.exists_focus hat
    obtain ⟨B, hrun, hr⟩ := hact t List.mem_cons_self w.tree _ parent h hholds
    have hnext := hfocus B _ hr
    rw [Tree.forestReplace_append_cons, List.append_cons] at hnext
    obtain ⟨C, hrun', hadd⟩ := ih (w := { w with tree := B }) _ hnext
      fun u hu => hact u (List.mem_cons_of_mem t hu)
    refine ⟨C, (bind_of_ok hrun).trans hrun', ?_⟩
    rw [List.map_cons, List.cons_append, List.append_cons]
    exact hadd

/-- Giving conditions to the nodes that a `uses` has brought. -/
theorem relabelAll_follows {slots : List Nat} {nodes : List Node}
    (h : Brought A q slots nodes w.tree) (conditions : List Condition) :
    ∃ B, slots.forM (relabel (NodeLabel.addConditions conditions)) w
        = .ok ((), { w with tree := B })
      ∧ Brought A q slots (nodes.map (Node.addConditions conditions)) B := by
  obtain ⟨ts, hadd, rfl, rfl⟩ := h
  rw [← List.append_nil ts] at hadd
  obtain ⟨B, hrun, hadd'⟩ := forM_roots []
    (fun t => ⟨(slot t, t.label.2.addConditions conditions), t.children⟩) hadd
    fun t _ B _ _ _ hholds => ⟨_, relabel_eq (w := { w with tree := B }) hholds.root,
      .relabel hholds⟩
  refine ⟨B, hrun, _, hadd', ?_, ?_⟩
  · rw [List.nil_append, List.append_nil, List.map_map, List.map_map]
    refine List.map_congr_left fun t _ => ?_
    obtain ⟨⟨i, l⟩, cs⟩ := t
    rfl
  · rw [List.nil_append, List.append_nil, List.map_map]
    rfl

theorem schemaChildren_eq (h : w.tree.Holds q s) : schemaChildren (slot s) w
    = .ok ((s.children.filter fun u => u.label.2.isSchemaNode).map slot, w) := by
  unfold schemaChildren
  rw [bind_of_ok (cell_eq h.root), bind_of_ok (labels_eq h.children), List.filter_map,
    List.map_map]
  rfl

/-- What an `augment` makes of a node that it has added. -/
def marked (conditions : List Condition) (t : Layout) : Layout :=
  Layout.relabelAll NodeLabel.markAugmenting
    ⟨(slot t, t.label.2.addConditions conditions), t.children⟩

theorem node_marked (conditions : List Condition) (t : Layout) : node (marked conditions t)
    = ((node t).addConditions conditions).markAugmenting := by
  obtain ⟨⟨i, l⟩, cs⟩ := t
  unfold marked
  rw [Layout.node_relabelAll]
  rfl

/-- A node whose name is free is marked together with all that stands below it. -/
theorem markAdded_eq (source : SourceId) (d : Declared) (conditions : List Condition) {t : Layout}
    {existing : List Nat} {known : List (Nat × NodeLabel)} (h : w.tree.Holds q t)
    (hknown : labels existing w = .ok (known, w))
    (hfree : t.label.2.schemaName ∉ known.map (·.2.schemaName)) :
    ∃ B, markAdded source d conditions existing (slot t) w = .ok ((), { w with tree := B })
      ∧ Rewrites w.tree B q t (marked conditions t) := by
  have hlabel := Rewrites.relabel (f := NodeLabel.addConditions conditions) h
  have hbelow := Rewrites.relabelAll (f := NodeLabel.markAugmenting) hlabel.holds
  let t' : Layout := ⟨(slot t, t.label.2.addConditions conditions), t.children⟩
  let A := w.tree.relabel (slot t) (NodeLabel.addConditions conditions)
  have hslots : forestSlots [t'] = Layout.slots t' := by
    rw [Layout.forestSlots_cons, Layout.forestSlots_nil, List.append_nil]
  have hrun : relabelBelow NodeLabel.markAugmenting A.length ([t'].map slot) { w with tree := A }
      = .ok ((), { w with tree := A.relabelIn NodeLabel.markAugmenting (forestSlots [t']) }) :=
    relabelBelow_eq (fun u hu => ⟨q, List.mem_singleton.1 hu ▸ hlabel.holds.has⟩)
      (hslots ▸ hlabel.holds.distinct) (hslots ▸ hlabel.holds.length_slots_le)
  rw [hslots] at hrun
  refine ⟨_, ?_, hlabel.trans hbelow⟩
  unfold markAdded
  rw [bind_of_ok (cell_eq h.root), bind_of_ok hknown]
  dsimp only
  rw [if_neg hfree, bind_of_ok (relabel_eq h.root), get_bind]
  exact hrun

/-- Marking what an `augment` has added succeeds if no name is taken, and else fails at the first
node whose name is. -/
theorem markAll_eq (source : SourceId) (d : Declared) (conditions : List Condition)
    {us new : List Layout} (h : Appends A w.tree q new) (hus : A.Has (forestCells q us))
    (hq : q ∉ forestSlots us) :
    match new.find? fun t => t.label.2.schemaName ∈ us.map fun u => u.label.2.schemaName with
    | some t => (new.map slot).forM (markAdded source d conditions (us.map slot)) w
        = .error (.error (.augment source d.location (d.argument.getD "")
          (.nameTaken t.label.2.schemaName)))
    | none => ∃ B, (new.map slot).forM (markAdded source d conditions (us.map slot)) w
          = .ok ((), { w with tree := B })
        ∧ Appends A B q (new.map (marked conditions)) := by
  have hknown {B : Arena} {ts : List Layout} (hB : Appends A B q ts) :
      labels (us.map slot) { w with tree := B }
        = .ok (us.map Tree.label, { w with tree := B }) := by
    refine labels_eq (hus.congr fun i hi => ?_)
    have hlt := hus.lt hi
    rw [Layout.map_fst_forestCells] at hi
    exact hB.frame i hlt fun heq => hq (heq ▸ hi)
  have hnames : (us.map Tree.label).map (fun x => x.2.schemaName)
      = us.map fun u => u.label.2.schemaName := by rw [List.map_map]; rfl
  -- the nodes whose names are free are marked in turn
  have hfree {free post : List Layout} (hadd : Appends A w.tree q (free ++ post))
      (hnot : ∀ t ∈ free, t.label.2.schemaName ∉ us.map fun u => u.label.2.schemaName) :=
    forM_roots [] (marked conditions) hadd fun t ht B ts parent hB hholds =>
      markAdded_eq (w := { w with tree := B }) source d conditions hholds (hknown hB)
        (hnames ▸ hnot t ht)
  split
  · rename_i t ht
    obtain ⟨htaken, pre, post, rfl, hpre⟩ := List.find?_eq_some_iff_append.1 ht
    obtain ⟨B, hrun, hadd⟩ := hfree h fun u hu => by simpa using hpre u hu
    rw [List.nil_append] at hadd
    obtain ⟨parent, hholds, -⟩ := hadd.exists_focus (p := [(pre.map (marked conditions)).length])
      (s := t) (by simp [Tree.forestSubtree?])
    rw [List.map_append]
    show forM (m := Action) (pre.map slot ++ (t :: post).map slot) _ w = _
    rw [List.forM_append]
    refine (bind_of_ok hrun).trans ?_
    show (markAdded source d conditions (us.map slot) (slot t) >>= fun _ =>
      (post.map slot).forM (markAdded source d conditions (us.map slot))) { w with tree := B } = _
    refine bind_of_error ?_
    unfold markAdded
    rw [bind_of_ok (cell_eq hholds.root), bind_of_ok (hknown hadd)]
    dsimp only
    rw [hnames, if_pos (of_decide_eq_true htaken)]
    rfl
  · rename_i hnone
    rw [← List.append_nil new] at h
    obtain ⟨B, hrun, hadd⟩ := hfree h fun t ht => by simpa using List.find?_eq_none.1 hnone t ht
    rw [List.nil_append, List.append_nil] at hadd
    exact ⟨B, hrun, hadd⟩

/-- Marking what an `augment` has added under a node of the arena follows adding it to the node. The
names that are taken are those of the children that were there before. -/
theorem augment_follows (source : SourceId) (d : Declared) (conditions : List Condition)
    {new : List Layout} (hs : A.Holds q s) (h : Appends A w.tree (slot s) new) :
    Follows w (fun n B _ => ∃ s', Rewrites A B q s s' ∧ node s' = n)
      (liftM (Expansion.augment source d conditions (node s) (new.map node)))
      ((new.map slot).forM (markAdded source d conditions
        ((s.children.filter fun u => u.label.2.isSchemaNode).map slot))) := by
  let us := s.children.filter fun u => u.label.2.isSchemaNode
  have hus : A.Has (forestCells (slot s) us) := fun x hx =>
    hs.children x (Layout.forestCells_subset List.filter_sublist.subset hx)
  have hnot : slot s ∉ forestSlots us := fun hi =>
    hs.distinct_children.1 ((Layout.forestSlots_sublist List.filter_sublist).subset hi)
  have hname (t : Layout) : Node.schemaName (node t) = t.label.2.schemaName :=
    congrArg NodeLabel.schemaName (Layout.label_node t)
  have htaken : (node s).schemaChildren.map Node.schemaName
      = us.map fun u => u.label.2.schemaName := by
    have hfilter : s.children.filter (Node.isSchemaNode ∘ node) = us :=
      List.filter_congr fun u _ => congrArg NodeLabel.isSchemaNode (Layout.label_node u)
    unfold Node.schemaChildren
    rw [Layout.children_node, List.filter_map, List.map_map, hfilter]
    exact List.map_congr_left fun u _ => hname u
  have hfind : (new.map node).find? (fun n => n.schemaName ∈ us.map fun u => u.label.2.schemaName)
      = (new.find? fun t => t.label.2.schemaName ∈ us.map fun u => u.label.2.schemaName).map
        node := by
    rw [List.find?_map]
    congr 2
    funext t
    exact congrArg (fun name => decide (name ∈ us.map fun u => u.label.2.schemaName)) (hname t)
  have hmark := markAll_eq source d conditions h hus hnot
  unfold Expansion.augment
  dsimp only
  rw [htaken, hfind]
  cases hclash : new.find? fun t => t.label.2.schemaName ∈ us.map fun u => u.label.2.schemaName with
  | some t =>
    rw [hclash] at hmark
    dsimp only [Option.map_some]
    rw [hname]
    exact .of_error hmark
  | none =>
    rw [hclash] at hmark
    obtain ⟨B, hrun, hadd⟩ := hmark
    refine .of_eq hrun ⟨_, .addChildren hs hadd, ?_⟩
    rw [Layout.node_addChildren, List.map_map, List.map_map]
    congr 2
    funext t
    exact node_marked conditions t

end Instantiator

end YangSchema
