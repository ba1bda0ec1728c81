import YangSchema.Proofs.Augmenting
import YangSchema.Proofs.PlainNodes
import YangSchema.Schema.Deviation

/-!
# Augmenting and deviating without locations

Paths lead to nodes by names and modules, augments are ordered by what their paths pass through, and
deviations are applied in the order of the modules. None of this asks where a statement was written.
-/

namespace YangSchema

/-- The tree of a module without locations. -/
def ModuleTree.plain (t : ModuleTree) : ModuleTree := ⟨t.id, t.root.map NodeLabel.plain⟩

/-- A target without locations. -/
def Target.plain (t : Target) : Target := { t with node := t.node.map NodeLabel.plain }

theorem ModuleTree.statements_plain (t : ModuleTree) (kind : Kind) :
    t.plain.statements kind = (t.statements kind).map (Tree.map NodeLabel.plain) :=
  Node.childrenOfKind_plain t.root kind

theorem ModuleTree.ofModule_plain (model : DeclaredModel) (m : DeclaredSource) :
    ofModule model.plain m.plain = .plain plain (ofModule model m) := by
  have hnodes := congrFun (Expansion.nodes_plain ⟨model, m.id⟩) []
  apply Result.plain_bind hnodes
  rintro ⟨nodes, table⟩
  show Except.ok (ModuleTree.mk m.id ⟨NodeLabel.ofDeclared m.id m.id false
    (m.root.map Declared.plain).label, nodes.map (Tree.map NodeLabel.plain)⟩) = Except.ok (plain _)
  rw [Tree.label_map, plain, Tree.map, Tree.mapForest_eq]
  rfl

/-! ## Trees and paths -/

namespace Forest

variable (model : DeclaredModel) (f : Forest) (source module : SourceId)

theorem ofModel_plain :
    ofModel model.plain = .plain (List.map ModuleTree.plain) (ofModel model) := by
  unfold ofModel
  rw [DeclaredModel.modules_plain]
  exact Result.plain_mapM (ModuleTree.ofModule_plain model) model.modules

theorem root?_plain :
    root? (f.map ModuleTree.plain) module = (f.root? module).map (Tree.map NodeLabel.plain) := by
  unfold root?
  rw [List.find?_map, Option.map_map, Option.map_map]
  rfl

theorem update_plain {g g' : Node → Node}
    (h : ∀ n, g' (n.map NodeLabel.plain) = (g n).map NodeLabel.plain) :
    update (f.map ModuleTree.plain) module g' = (f.update module g).map ModuleTree.plain := by
  unfold update
  rw [List.map_map, List.map_map]
  congr 1
  funext t
  show (if t.id = module then _ else _) = ModuleTree.plain (ite _ _ _)
  split
  · show ModuleTree.mk t.id (g' (t.root.map NodeLabel.plain)) = _
    rw [h]
    rfl
  · rfl

theorem replace_plain (target : Target) (n : Node) :
    replace (f.map ModuleTree.plain) target.plain (n.map NodeLabel.plain)
      = (f.replace target n).map ModuleTree.plain :=
  update_plain f target.module fun m => (Tree.map_replace NodeLabel.plain n target.address m).symm

theorem remove_plain (target : Target) : remove (f.map ModuleTree.plain) target.plain
    = (f.remove target).map ModuleTree.plain :=
  update_plain f target.module fun m => (Tree.map_remove NodeLabel.plain target.address m).symm

theorem stepModule?_plain (step : Step) :
    stepModule? model.plain source step = stepModule? model source step := by
  unfold stepModule?
  rw [DeclaredModel.source?_plain]
  cases model.source? source <;> rfl

theorem stepModule_plain (step : Step) :
    stepModule model.plain source step = stepModule model source step := by
  unfold stepModule
  rw [stepModule?_plain]

theorem follow_plain (n : Node) (steps : List Step) :
    follow model.plain source (n.map NodeLabel.plain) steps
      = (follow model source n steps).map (Prod.map id (Tree.map NodeLabel.plain)) := by
  induction steps generalizing n with
  | nil => rfl
  | cons step rest ih =>
    rw [follow, follow, stepModule_plain]
    cases stepModule model source step with
    | error fault => rfl
    | ok module =>
      dsimp only [bind, Except.bind]
      rw [Tree.children_map, Node.childPlace?_plain fun _ => rfl]
      generalize Node.childPlace? (fun l => l.module = module) step.name n.children = place
      cases place with
      | none => rfl
      | some place =>
        dsimp only [Option.bind_some]
        rw [List.getElem?_map]
        cases n.children[place]? with
        | none => rfl
        | some child =>
          dsimp only [Option.map_some]
          rw [ih]
          cases follow model source child rest <;> rfl

theorem locate_plain (path : String) : locate model.plain (f.map ModuleTree.plain) source path
    = (locate model f source path).map Target.plain := by
  unfold locate
  cases SchemaPath.steps? true path with
  | none => rfl
  | some steps =>
    cases steps with
    | nil => rfl
    | cons first rest =>
      dsimp only
      rw [stepModule_plain]
      cases stepModule model source first with
      | error fault => rfl
      | ok module =>
        dsimp only [bind, Except.bind]
        rw [root?_plain]
        cases f.root? module with
        | none => rfl
        | some root =>
          show (follow model.plain source (root.map NodeLabel.plain) (first :: rest) >>= _)
            = Except.map Target.plain (follow model source root (first :: rest) >>= _)
          rw [follow_plain]
          cases follow model source root (first :: rest) <;> rfl

end Forest

/-! ## Augments -/

/-- The augments of a module without locations. -/
def PendingModule.plain (m : PendingModule) : PendingModule :=
  ⟨m.id, m.augments.map (Tree.map NodeLabel.plain)⟩

namespace Augmentation

variable (model : DeclaredModel) (f : Forest) (a : Node)

theorem error_plain (fault : AugmentFault) :
    error (a.map NodeLabel.plain) fault = (error a fault).plain := by
  unfold error
  rw [Tree.label_map]
  rfl

theorem content_plain :
    content (a.map NodeLabel.plain) = (content a).map (Tree.map NodeLabel.plain) := by
  unfold content
  rw [Tree.children_map, List.filter_map]
  simp only [Function.comp_def, Tree.label_map]
  rfl

@[simp] theorem nameOf_plain (n : Node) : nameOf (n.map NodeLabel.plain) = nameOf n := by
  unfold nameOf
  rw [Tree.label_map, Node.schemaName_plain]
  rfl

theorem firstClash?_plain (taken : List (SourceId × String)) (ns : List Node) :
    firstClash? taken (ns.map (Tree.map NodeLabel.plain))
      = (firstClash? taken ns).map (Tree.map NodeLabel.plain) := by
  induction ns generalizing taken with
  | nil => rfl
  | cons n ns ih =>
    rw [List.map_cons, firstClash?, firstClash?, nameOf_plain, ih]
    split <;> rfl

theorem splice_plain (target : Node) : splice (a.map NodeLabel.plain) (target.map NodeLabel.plain)
    = .plain (Tree.map NodeLabel.plain) (splice a target) := by
  have hnames : (Node.schemaChildren (target.map NodeLabel.plain)).map nameOf
      = (Node.schemaChildren target).map nameOf := by
    rw [Node.schemaChildren_plain, List.map_map]
    simp only [Function.comp_def, nameOf_plain]
  unfold splice
  rw [Node.kind?_plain, hnames, content_plain, firstClash?_plain, error_plain, Tree.label_map,
    Node.conditions_plain]
  apply Result.plain_ite
  · rfl
  · cases firstClash? ((Node.schemaChildren target).map nameOf) (content a) with
    | some n =>
      show Except.error (error (a.map NodeLabel.plain) (.nameTaken _)) = _
      rw [error_plain, Node.schemaName_plain]
      rfl
    | none =>
      show Except.ok (Tree.addChildren _ _) = Except.ok ((Tree.addChildren _ _).map NodeLabel.plain)
      rw [Tree.map_addChildren, List.map_map, List.map_map]
      simp only [Function.comp_def, Node.addConditions_plain, Node.markAugmenting_plain]

theorem attempt_plain : attempt model.plain (f.map ModuleTree.plain) (a.map NodeLabel.plain)
    = .plain (Except.map (List.map ModuleTree.plain)) (attempt model f a) := by
  unfold attempt
  rw [Tree.label_map, Forest.locate_plain]
  dsimp only [NodeLabel.plain, Head.plain]
  cases Forest.locate model f a.label.source (a.label.argument.getD "") with
  | error fault => rfl
  | ok target =>
    apply Result.plain_bind (splice_plain a target.node)
    intro n
    show Except.ok (Except.ok (Forest.replace _ target.plain _)) = _
    rw [Forest.replace_plain]
    rfl

theorem sweep_plain (as : List Node) :
    sweep model.plain (f.map ModuleTree.plain) (as.map (Tree.map NodeLabel.plain))
      = .plain
        (Prod.map (List.map ModuleTree.plain) (List.map (Prod.map (Tree.map NodeLabel.plain) id)))
        (sweep model f as) := by
  induction as generalizing f with
  | nil => rfl
  | cons a rest ih =>
    rw [List.map_cons, sweep, sweep]
    apply Result.plain_bind (attempt_plain model f a)
    intro tried
    cases tried with
    | ok f => exact ih f
    | error fault => exact Result.plain_bind (ih f) fun _ => rfl

theorem applyModule_plain (augments : List Node) :
    applyModule model.plain (f.map ModuleTree.plain) (augments.map (Tree.map NodeLabel.plain))
      = .plain (List.map ModuleTree.plain) (applyModule model f augments) := by
  induction hlength : augments.length using Nat.strongRecOn generalizing f augments with
  | ind length ih =>
    rw [applyModule_eq, applyModule_eq, sweep_plain, List.length_map]
    cases sweep model f augments with
    | error e => rfl
    | ok swept =>
      obtain ⟨g, left⟩ := swept
      cases left with
      | nil => rfl
      | cons first rest =>
        obtain ⟨a, fault⟩ := first
        show (if (rest.map _).length + 1 < augments.length then
          applyModule model.plain (g.map ModuleTree.plain)
            (a.map NodeLabel.plain :: (rest.map (Prod.map (Tree.map NodeLabel.plain) id)).map (·.1))
          else Except.error (error (a.map NodeLabel.plain) _)) = Result.plain _ (ite _ _ _)
        rw [List.length_map, error_plain, List.map_map]
        split
        · rename_i hless
          have hbelow : (a :: rest.map (·.1)).length < length := by
            rw [← hlength, List.length_cons, List.length_map]
            exact hless
          have happly := ih _ hbelow g (a :: rest.map (·.1)) rfl
          rw [List.map_cons, List.map_map] at happly
          exact happly
        · rfl

theorem passesThrough_plain :
    passesThrough model.plain (a.map NodeLabel.plain) = passesThrough model a := by
  unfold passesThrough
  rw [Tree.label_map]
  congr 1
  funext step
  exact Forest.stepModule?_plain model _ step

theorem dependencies_plain (m : PendingModule) :
    dependencies model.plain (f.map ModuleTree.plain) m.plain = dependencies model f m := by
  have hmet : m.plain.augments.flatMap (passesThrough model.plain)
      = m.augments.flatMap (passesThrough model) := by
    show (m.augments.map _).flatMap _ = _
    rw [List.flatMap_map]
    simp only [passesThrough_plain]
  unfold dependencies
  rw [hmet, List.map_map]
  rfl

theorem pendingModules_plain :
    pendingModules (f.map ModuleTree.plain) = (pendingModules f).map PendingModule.plain := by
  have hwaiting (t : ModuleTree) : (⟨t.plain.id, t.plain.statements .augment⟩ : PendingModule)
      = PendingModule.plain ⟨t.id, t.statements .augment⟩ := by
    rw [ModuleTree.statements_plain]
    rfl
  have hempty (m : PendingModule) : m.plain.augments.isEmpty = m.augments.isEmpty :=
    List.isEmpty_map
  have hmap : (f.map ModuleTree.plain).map (fun t => PendingModule.mk t.id (t.statements .augment))
      = (f.map fun t => PendingModule.mk t.id (t.statements .augment)).map PendingModule.plain := by
    rw [List.map_map, List.map_map]
    exact List.map_congr_left fun t _ => hwaiting t
  unfold pendingModules
  rw [hmap, List.filter_map]
  simp only [Function.comp_def, hempty]

theorem checkCycles_plain (next : SourceId → List SourceId) :
    checkCycles (f.map ModuleTree.plain) next = .plainError (checkCycles f next) := by
  have hids : (·.id) ∘ ModuleTree.plain = fun t => t.id := rfl
  unfold checkCycles
  rw [List.map_map, hids]
  cases Digraph.firstCycle? (f.map (·.id)) next <;> rfl

section Rounds

variable (next : SourceId → List SourceId) (waiting : List PendingModule)

theorem isReady_plain (m : PendingModule) :
    isReady next (waiting.map PendingModule.plain) m.plain = isReady next waiting m := by
  unfold isReady
  simp only [List.all_map]
  rfl

theorem ready_plain : ready next (waiting.map PendingModule.plain)
    = (ready next waiting).map PendingModule.plain := by
  unfold ready
  rw [List.filter_map]
  simp only [Function.comp_def, isReady_plain]

theorem blocked_plain : blocked next (waiting.map PendingModule.plain)
    = (blocked next waiting).map PendingModule.plain := by
  unfold blocked
  rw [List.filter_map]
  simp only [Function.comp_def, isReady_plain]

theorem applyRounds_plain :
    applyRounds model.plain next (f.map ModuleTree.plain) (waiting.map PendingModule.plain)
      = .plain (List.map ModuleTree.plain) (applyRounds model next f waiting) := by
  fun_induction applyRounds model next f waiting with
  | case1 f waiting hempty =>
    rw [applyRounds, List.isEmpty_map, if_pos hempty]
    rfl
  | case2 f waiting hne hready =>
    have hready' : ready next (waiting.map PendingModule.plain) = [] := by
      rw [ready_plain, hready]
      rfl
    rw [applyRounds, List.isEmpty_map, if_neg hne, dif_pos hready', List.map_map]
    rfl
  | case3 f waiting hne hready ih =>
    have hready' : ready next (waiting.map PendingModule.plain) ≠ [] := by
      rw [ready_plain]
      exact mt List.map_eq_nil_iff.1 hready
    rw [applyRounds, List.isEmpty_map, if_neg hne, dif_neg hready', ready_plain, blocked_plain]
    refine Result.plain_bind (k := List.map ModuleTree.plain) ?_ ih
    exact Result.plain_foldlM (fun f m => applyModule_plain model f m.augments) _ f

end Rounds

theorem applyAll_plain : applyAll model.plain (f.map ModuleTree.plain)
    = .plain (List.map ModuleTree.plain) (applyAll model f) := by
  have hnext : (fun id => (((pendingModules (f.map ModuleTree.plain)).find? fun m => m.id = id).map
      (dependencies model.plain (f.map ModuleTree.plain))).getD [])
        = fun id => (((pendingModules f).find? fun m => m.id = id).map
          (dependencies model f)).getD [] := by
    funext id
    rw [pendingModules_plain, List.find?_map, Option.map_map]
    simp only [Function.comp_def, dependencies_plain]
    rfl
  unfold applyAll
  dsimp only
  rw [hnext, pendingModules_plain]
  apply Result.plain_bind (checkCycles_plain f _)
  intro _
  exact applyRounds_plain model f _ (pendingModules f)

end Augmentation

/-! ## Deviations -/

namespace Deviation

variable (model : DeclaredModel) (f : Forest) (d : Node)

theorem error_plain (fault : DeviationFault) :
    error (d.map NodeLabel.plain) fault = (error d fault).plain := by
  unfold error
  rw [Tree.label_map]
  rfl

theorem any_is_plain (kind : Kind) (ns : List Node) :
    (ns.map (Tree.map NodeLabel.plain)).any (Node.is · kind) = ns.any (Node.is · kind) := by
  rw [List.any_map]
  simp only [Function.comp_def, Node.is_plain]

theorem addChild_plain (target property : Node) :
    (target.map NodeLabel.plain).addChild (property.map NodeLabel.plain)
      = (target.addChild property).map NodeLabel.plain :=
  (Tree.map_addChildren NodeLabel.plain target [property]).symm

theorem added_plain (kind : Kind) (cardinality : Cardinality) (property target : Node) :
    added (d.map NodeLabel.plain) kind cardinality (property.map NodeLabel.plain)
        (target.map NodeLabel.plain)
      = .plain (Tree.map NodeLabel.plain) (added d kind cardinality property target) := by
  unfold added
  rw [Tree.children_map, any_is_plain, error_plain, addChild_plain]
  exact Result.plain_ite rfl rfl

theorem replaced_plain (kind : Kind) (property target : Node) :
    replaced (d.map NodeLabel.plain) kind (property.map NodeLabel.plain)
        (target.map NodeLabel.plain)
      = .plain (Tree.map NodeLabel.plain) (replaced d kind property target) := by
  unfold replaced
  rw [Tree.children_map, any_is_plain, error_plain, ← Node.removeChildren_plain, addChild_plain]
  exact Result.plain_ite rfl rfl

theorem deleted_plain (kind : Kind) (property target : Node) :
    deleted (d.map NodeLabel.plain) kind (property.map NodeLabel.plain) (target.map NodeLabel.plain)
      = .plain (Tree.map NodeLabel.plain) (deleted d kind property target) := by
  have hsame (n : Node) : (Node.is (n.map NodeLabel.plain) kind &&
      (n.map NodeLabel.plain).label.argument == (property.map NodeLabel.plain).label.argument)
        = (Node.is n kind && n.label.argument == property.label.argument) := by
    rw [Node.is_plain, Tree.label_map, Tree.label_map]
    rfl
  unfold deleted
  dsimp only
  rw [Tree.children_map, List.findIdx?_map, error_plain]
  simp only [Function.comp_def, hsame]
  cases target.children.findIdx? fun n =>
      Node.is n kind && n.label.argument == property.label.argument with
  | some place =>
    show Except.ok _ = Except.ok _
    rw [Tree.map_remove]
  | none =>
    show Except.error (Error.plain (error d (.nothingToDelete kind
      ((property.map NodeLabel.plain).label.argument.getD "")))) = _
    rw [Tree.label_map]
    rfl

theorem applyProperty_plain (deviate : Deviate) (targetKind : Kind) (target property : Node) :
    applyProperty (d.map NodeLabel.plain) deviate targetKind (target.map NodeLabel.plain)
        (property.map NodeLabel.plain)
      = .plain (Tree.map NodeLabel.plain) (applyProperty d deviate targetKind target property) := by
  unfold applyProperty
  rw [Node.kind?_plain]
  cases Node.kind? property with
  | none => rfl
  | some kind =>
    dsimp only
    cases targetKind.substatement? kind with
    | none =>
      dsimp only
      rw [error_plain]
      rfl
    | some cardinality =>
      cases deviate with
      | add => exact added_plain d kind cardinality property target
      | replace => exact replaced_plain d kind property target
      | delete => exact deleted_plain d kind property target
      | notSupported => rfl

theorem applyProperties_plain (targetKind : Kind) (target : Node)
    (deviates : List (Deviate × Node)) :
    applyProperties (d.map NodeLabel.plain) targetKind (target.map NodeLabel.plain)
        (deviates.map (Prod.map id (Tree.map NodeLabel.plain)))
      = .plain (Tree.map NodeLabel.plain) (applyProperties d targetKind target deviates) := by
  apply Result.plain_foldlM
  intro target deviate
  show (Tree.children (deviate.2.map NodeLabel.plain)).foldlM _ _ = _
  rw [Tree.children_map]
  exact Result.plain_foldlM (applyProperty_plain d deviate.1 targetKind) _ target

theorem deviates_plain : deviates (d.map NodeLabel.plain)
    = .plain (List.map (Prod.map id (Tree.map NodeLabel.plain))) (deviates d) := by
  unfold deviates
  rw [Node.childrenOfKind_plain]
  apply Result.plain_mapM
  intro n
  rw [Tree.label_map]
  have hargument : n.label.plain.argument = n.label.argument := rfl
  rw [hargument]
  dsimp only
  cases Deviate.ofString? (n.label.argument.getD "") with
  | some deviate => rfl
  | none =>
    dsimp only
    rw [error_plain]
    rfl

theorem target_plain : target model.plain (f.map ModuleTree.plain) (d.map NodeLabel.plain)
    = .plain Target.plain (target model f d) := by
  unfold target
  rw [Tree.label_map, Forest.locate_plain]
  dsimp only [NodeLabel.plain, Head.plain]
  cases Forest.locate model f d.label.source (d.label.argument.getD "") with
  | ok target => rfl
  | error fault =>
    dsimp only [Except.map]
    rw [error_plain]
    rfl

theorem apply_plain : apply model.plain (f.map ModuleTree.plain) (d.map NodeLabel.plain)
    = .plain (List.map ModuleTree.plain) (apply model f d) := by
  apply Result.plain_bind (target_plain model f d)
  intro target
  have hkind : Node.kind? target.plain.node = Node.kind? target.node := Node.kind?_plain target.node
  rw [hkind]
  cases Node.kind? target.node with
  | none =>
    dsimp only
    rw [error_plain]
    rfl
  | some targetKind =>
    apply Result.plain_bind (deviates_plain d)
    intro deviates
    rw [List.any_map, List.length_map]
    apply Result.plain_ite
    · apply Result.plain_ite
      · rw [error_plain]
        rfl
      · rw [Forest.remove_plain]
        rfl
    · apply Result.plain_bind (applyProperties_plain d targetKind target.node deviates)
      intro n
      rw [Forest.replace_plain]
      rfl

theorem applyAll_plain : applyAll model.plain (f.map ModuleTree.plain)
    = .plain (List.map ModuleTree.plain) (applyAll model f) := by
  have hdeviations : (f.map ModuleTree.plain).flatMap (fun t => t.statements .deviation)
      = (f.flatMap fun t => t.statements .deviation).map (Tree.map NodeLabel.plain) := by
    rw [List.flatMap_map, List.map_flatMap]
    simp only [ModuleTree.statements_plain]
  unfold applyAll
  rw [hdeviations]
  exact Result.plain_foldlM (apply_plain model) _ f

end Deviation

end YangSchema
