import YangSchema.Proofs.PlainTypes
import YangSchema.Schema.Expansion

/-!
# Instantiating without locations

Nodes keep the locations of the statements that they come from. Copying, refining and augmenting
hand them on and look at everything else: how nodes are found, what they are called, what may stand
where and under which conditions.
-/

namespace YangSchema

/-- What is known of a node, without locations. -/
def NodeLabel.plain (l : NodeLabel) : NodeLabel := { l with toHead := l.toHead.plain }

/-! ## Nodes -/

namespace Node

variable (n : Node) (kind : Kind)

@[simp] theorem kind?_plain : kind? (n.map NodeLabel.plain) = n.kind? := by
  rw [kind?, Tree.label_map]
  rfl

@[simp] theorem is_plain : is (n.map NodeLabel.plain) kind = n.is kind := by
  rw [is, is, kind?_plain]

@[simp] theorem schemaName_plain : schemaName (n.map NodeLabel.plain) = n.schemaName := by
  rw [schemaName, Tree.label_map]
  rfl

@[simp] theorem isSchemaNode_plain : isSchemaNode (n.map NodeLabel.plain) = n.isSchemaNode := by
  rw [isSchemaNode, Tree.label_map]
  rfl

@[simp] theorem schemaChildren_plain : schemaChildren (n.map NodeLabel.plain)
    = (n.schemaChildren).map (Tree.map NodeLabel.plain) := by
  rw [schemaChildren, schemaChildren, Tree.children_map, List.filter_map]
  simp only [Function.comp_def, isSchemaNode_plain]

@[simp] theorem childrenOfKind_plain : childrenOfKind (n.map NodeLabel.plain) kind
    = (n.childrenOfKind kind).map (Tree.map NodeLabel.plain) := by
  rw [childrenOfKind, childrenOfKind, Tree.children_map, List.filter_map]
  simp only [Function.comp_def, is_plain]

theorem removeChildren_plain : (n.removeChildren (is · kind)).map NodeLabel.plain
    = (n.map NodeLabel.plain).removeChildren (is · kind) := by
  unfold Tree.removeChildren
  rw [Tree.label_map, Tree.children_map, Tree.map, Tree.mapForest_eq, List.filter_map]
  simp only [Function.comp_def, is_plain]

theorem ofDeclaration_plain (module source : SourceId) (addedByUses : Bool) (d : Declaration) :
    ofDeclaration module source addedByUses (d.map Declared.plain)
      = (ofDeclaration module source addedByUses d).map NodeLabel.plain := by
  unfold ofDeclaration
  rw [Tree.map_map, Tree.map_map]
  rfl

theorem addConditions_plain (conditions : List Condition) :
    addConditions conditions (n.map NodeLabel.plain)
      = (n.addConditions conditions).map NodeLabel.plain := by
  unfold addConditions
  rw [Tree.label_map, Tree.children_map, Tree.map, Tree.mapForest_eq]
  rfl

theorem markAugmenting_plain :
    markAugmenting (n.map NodeLabel.plain) = (markAugmenting n).map NodeLabel.plain := by
  unfold markAugmenting
  rw [Tree.map_map, Tree.map_map]
  rfl

theorem conditionsOfDeclarations_plain (origin : SourceId) (ds : List Declaration) :
    conditionsOfDeclarations origin (ds.map (Tree.map Declared.plain))
      = conditionsOfDeclarations origin ds := by
  unfold conditionsOfDeclarations
  rw [List.filterMap_map]
  simp only [Function.comp_def, Tree.label_map]
  rfl

@[simp] theorem conditions_plain : conditions (n.map NodeLabel.plain) = n.conditions := by
  unfold conditions
  rw [Tree.children_map, Tree.label_map, List.filterMap_map]
  simp only [Function.comp_def, Tree.label_map]
  rfl

theorem map_addConditions_plain (conditions : List Condition) (ns : List Node) :
    (ns.map (Tree.map NodeLabel.plain)).map (addConditions conditions)
      = (ns.map (addConditions conditions)).map (Tree.map NodeLabel.plain) := by
  rw [List.map_map, List.map_map]
  simp only [Function.comp_def, addConditions_plain]

theorem childPlace?_plain {p : NodeLabel → Bool} (hp : ∀ l : NodeLabel, p l.plain = p l)
    (name : String) (ns : List Node) :
    childPlace? p name (ns.map (Tree.map NodeLabel.plain)) = childPlace? p name ns := by
  unfold childPlace?
  rw [List.findIdx?_map]
  simp only [Function.comp_def, isSchemaNode_plain, schemaName_plain, Tree.label_map, hp]

theorem addressIn?_plain (ns : List Node) (steps : List Step) :
    addressIn? (ns.map (Tree.map NodeLabel.plain)) steps = addressIn? ns steps := by
  induction steps generalizing ns with
  | nil => rfl
  | cons s rest ih =>
    rw [addressIn?, addressIn?, childPlace?_plain fun _ => rfl]
    cases childPlace? (fun _ => true) s.name ns with
    | none => rfl
    | some place =>
      show ((ns.map (Tree.map NodeLabel.plain))[place]? >>= _) = (ns[place]? >>= _)
      rw [List.getElem?_map]
      cases ns[place]? with
      | none => rfl
      | some n =>
        show (if rest.isEmpty then _
          else (addressIn? (n.map NodeLabel.plain).children rest >>= _)) = _
        rw [Tree.children_map, ih]
        rfl

theorem bind_addressIn?_plain (ns : List Node) (steps : Option (List Step)) :
    steps.bind (addressIn? (ns.map (Tree.map NodeLabel.plain))) = steps.bind (addressIn? ns) := by
  have hfun := funext (addressIn?_plain ns)
  rw [hfun]

theorem bind_forestSubtree?_plain (ns : List Node) (address : Option (List Nat)) :
    address.bind (Tree.forestSubtree? (ns.map (Tree.map NodeLabel.plain)))
      = (address.bind (Tree.forestSubtree? ns)).map (Tree.map NodeLabel.plain) := by
  cases address with
  | none => rfl
  | some address => exact Tree.forestSubtree?_map NodeLabel.plain ns address

end Node

/-! ## Adjusting what a `uses` brings -/

namespace Expansion

/-- An expansion without locations. -/
def plain (e : Expansion) : Expansion := { e with model := e.model.plain }

variable (e : Expansion) (source : SourceId)

theorem makeRoom_plain (property : Declaration) (target : Node) :
    makeRoom source (property.map Declared.plain) (target.map NodeLabel.plain)
      = .plain (Tree.map NodeLabel.plain) (makeRoom source property target) := by
  unfold makeRoom
  rw [Declaration.kind?_plain, Node.kind?_plain, Tree.label_map]
  cases property.kind? with
  | none => rfl
  | some kind =>
    cases Node.kind? target with
    | none => rfl
    | some targetKind =>
      apply Result.plain_ite
      · rfl
      · apply Result.plain_ite
        · rw [← Node.removeChildren_plain]
          rfl
        · rfl

theorem refineProperty_plain (target : Node) (property : Declaration) :
    refineProperty e.plain source (target.map NodeLabel.plain) (property.map Declared.plain)
      = .plain (Tree.map NodeLabel.plain) (refineProperty e source target property) := by
  apply Result.plain_bind (makeRoom_plain source property target)
  intro target
  rw [Node.ofDeclaration_plain]
  show Except.ok (Tree.addChildren _ [_]) = Except.ok ((Tree.addChildren _ [_]).map NodeLabel.plain)
  rw [Tree.map_addChildren]
  rfl

theorem refine_plain (nodes : List Node) (d : Declaration) :
    refine e.plain source (nodes.map (Tree.map NodeLabel.plain)) (d.map Declared.plain)
      = .plain (List.map (Tree.map NodeLabel.plain)) (refine e source nodes d) := by
  unfold refine
  dsimp only
  rw [Declaration.argumentText_plain, Node.bind_addressIn?_plain, Node.bind_forestSubtree?_plain,
    Tree.label_map, Tree.children_map]
  generalize (SchemaPath.steps? false d.argumentText).bind (Node.addressIn? nodes) = address
  cases address with
  | none => rfl
  | some address =>
    dsimp only [Option.bind_some]
    cases Tree.forestSubtree? nodes address with
    | none => rfl
    | some target =>
      apply Result.plain_bind
        (Result.plain_foldlM (refineProperty_plain e source) d.children target)
      intro refined
      show Except.ok _ = Except.ok _
      rw [Tree.map_forestReplace]

theorem refineAll_plain (nodes : List Node) (ds : List Declaration) :
    refineAll e.plain source (nodes.map (Tree.map NodeLabel.plain))
        (ds.map (Tree.map Declared.plain))
      = .plain (List.map (Tree.map NodeLabel.plain)) (refineAll e source nodes ds) :=
  Result.plain_foldlM (refine_plain e source) ds nodes

theorem augmentTarget_plain (d : Declared) (nodes : List Node) :
    augmentTarget source d.plain (nodes.map (Tree.map NodeLabel.plain))
      = .plain (Prod.map id (Tree.map NodeLabel.plain)) (augmentTarget source d nodes) := by
  unfold augmentTarget
  dsimp only [Declared.plain, Head.plain]
  rw [Node.bind_addressIn?_plain, Node.bind_forestSubtree?_plain]
  generalize (SchemaPath.steps? false (d.argument.getD "")).bind (Node.addressIn? nodes) = address
  cases address with
  | none => rfl
  | some address =>
    dsimp only [Option.bind_some]
    cases Tree.forestSubtree? nodes address with
    | none => rfl
    | some target =>
      dsimp only [Option.map_some]
      rw [Node.kind?_plain]
      exact Result.plain_ite rfl rfl

theorem augment_plain (d : Declared) (conditions : List Condition) (target : Node)
    (added : List Node) :
    augment source d.plain conditions (target.map NodeLabel.plain)
        (added.map (Tree.map NodeLabel.plain))
      = .plain (Tree.map NodeLabel.plain) (augment source d conditions target added) := by
  have hnames : (Node.schemaChildren (target.map NodeLabel.plain)).map Node.schemaName
      = (Node.schemaChildren target).map Node.schemaName := by
    rw [Node.schemaChildren_plain, List.map_map]
    simp only [Function.comp_def, Node.schemaName_plain]
  unfold augment
  dsimp only
  rw [hnames, List.find?_map]
  simp only [Function.comp_def, Node.schemaName_plain]
  cases added.find? fun n => n.schemaName ∈ (Node.schemaChildren target).map Node.schemaName with
  | some n =>
    show augmentFault source d.plain (.nameTaken (Node.schemaName (n.map NodeLabel.plain))) = _
    rw [Node.schemaName_plain]
    rfl
  | none =>
    show Except.ok (Tree.addChildren _ _) = Except.ok ((Tree.addChildren _ _).map NodeLabel.plain)
    rw [Tree.map_addChildren, List.map_map, List.map_map]
    simp only [Function.comp_def, Node.addConditions_plain, Node.markAugmenting_plain]

/-! ## Copying -/

/-- A `uses` without locations. -/
def Site.plain (s : Site) : Site := ⟨s.source, .nowhere, s.definition.plain⟩

theorem typeOf_plain (s : DeclaredSource) (scope : Scope) (isMember : Bool) (d : Declaration) :
    typeOf e.plain s.plain scope.plain isMember (d.map Declared.plain)
      = .plainError (typeOf e s scope isMember d) := by
  unfold typeOf
  rw [Declaration.is_plain]
  split
  · exact Building.plain_bind (EffectiveType.resolve_plain s scope d) fun _ => rfl
  · rfl

/-- What one way to expand groupings makes of a `uses` without locations is what the other one makes
of the `uses`, without locations. -/
def ExpandsPlain (grouping grouping' : Site → Building (List Node)) : Prop :=
  ∀ site, grouping' site.plain = .plain (List.map (Tree.map NodeLabel.plain)) (grouping site)

section Copying

variable {e} {grouping grouping' : Site → Building (List Node)} (s : DeclaredSource)

mutual

theorem copy_plain (h : ExpandsPlain grouping grouping') (addedByUses isMember : Bool)
    (scope : Scope) : ∀ d : Declaration,
    copy e.plain grouping' s.plain addedByUses isMember scope.plain (d.map Declared.plain)
      = .plain (List.map (Tree.map NodeLabel.plain))
        (copy e grouping s addedByUses isMember scope d)
  | ⟨label, children⟩ => by
    have htype := typeOf_plain e s scope isMember ⟨label, children⟩
    rw [Tree.map] at htype
    rw [Tree.map, copy, copy]
    show (if label.binding = .builtin .uses then _ else _) = Building.plain _ (ite _ _ _)
    split
    · apply Building.plain_bind (Building.plain_lift (Definition.resolve_plain _ _ _ _ _))
      intro d
      apply Building.plain_bind (h ⟨s.id, label.location, d⟩)
      intro nodes
      have hconditions := Node.conditionsOfDeclarations_plain s.id children
      have hrefines := Declaration.filter_is_plain .refine children
      rw [← Tree.mapForest_eq] at hconditions hrefines
      dsimp only
      rw [hrefines]
      show (liftM (refineAll e.plain s.id _ _) >>= _) = _
      rw [show s.plain.id = s.id from rfl, hconditions, Node.map_addConditions_plain]
      apply Building.plain_bind (Building.plain_lift (refineAll_plain e s.id _ _))
      intro nodes
      exact augmentAll_plain h scope nodes children
    · apply Building.plain_bind htype
      intro type
      apply Building.plain_bind (copyAll_plain h addedByUses (label.binding = .builtin .type)
        (scope.enter s ⟨label, children⟩) (fun _ => true) children)
      intro copied
      show pure _ = Building.plain _ (pure _)
      rw [← Building.plain_pure, List.map_singleton, Tree.map, Tree.mapForest_eq]
      rfl

theorem copyAll_plain (h : ExpandsPlain grouping grouping') (addedByUses isMember : Bool)
    (scope : Scope) (p : Binding → Bool) : ∀ ds : List Declaration,
      copyAll e.plain grouping' s.plain addedByUses isMember scope.plain p
          (Tree.mapForest Declared.plain ds)
        = .plain (List.map (Tree.map NodeLabel.plain))
          (copyAll e grouping s addedByUses isMember scope p ds)
  | [] => rfl
  | d :: ds => by
    rw [Tree.mapForest, copyAll, copyAll, Tree.label_map]
    show (if p d.label.binding then _ else _) = Building.plain _ (ite _ _ _)
    split
    · apply Building.plain_bind (copy_plain h addedByUses isMember scope d)
      intro nodes
      apply Building.plain_bind (copyAll_plain h addedByUses isMember scope p ds)
      intro rest
      rw [← List.map_append]
      rfl
    · exact copyAll_plain h addedByUses isMember scope p ds

theorem augmentAll_plain (h : ExpandsPlain grouping grouping') (scope : Scope) (nodes : List Node) :
    ∀ ds : List Declaration,
    augmentAll e.plain grouping' s.plain scope.plain (nodes.map (Tree.map NodeLabel.plain))
        (Tree.mapForest Declared.plain ds)
      = .plain (List.map (Tree.map NodeLabel.plain)) (augmentAll e grouping s scope nodes ds)
  | [] => rfl
  | ⟨label, children⟩ :: ds => by
    rw [Tree.mapForest, Tree.map, augmentAll, augmentAll]
    show (if label.binding = .builtin .augment then _ else _) = Building.plain _ (ite _ _ _)
    split
    · apply Building.plain_bind (Building.plain_lift (augmentTarget_plain s.id label nodes))
      rintro ⟨address, target⟩
      apply Building.plain_bind (copyAll_plain h true false (scope.enter s ⟨label, children⟩)
        Node.isAugmentContent children)
      intro added
      have hconditions := Node.conditionsOfDeclarations_plain s.id children
      rw [← Tree.mapForest_eq] at hconditions
      dsimp only
      rw [show s.plain.id = s.id from rfl, hconditions]
      apply Building.plain_bind (Building.plain_lift (augment_plain s.id label _ target added))
      intro target
      show augmentAll e.plain grouping' s.plain scope.plain (Tree.forestReplace _ _ _) _ = _
      rw [← Tree.map_forestReplace]
      exact augmentAll_plain h scope _ ds
    · exact augmentAll_plain h scope nodes ds

end

end Copying

/-! ## Expanding -/

theorem cycleError_plain (pending : List Definition.Pending) (site : Site) :
    cycleError pending site.plain = (cycleError pending site).plain := by
  unfold cycleError
  show Error.groupingCycle _ _ (site.definition.plain.cycle pending) = _
  rw [Definition.cycle_plain]
  rfl

theorem ofGrouping_plain (depth : Nat) (pending : List Definition.Pending) :
    ExpandsPlain (ofGrouping e depth pending) (ofGrouping e.plain depth pending) := by
  induction depth generalizing pending with
  | zero =>
    intro site
    rw [ofGrouping, ofGrouping, cycleError_plain]
    rfl
  | succ depth ih =>
    intro site
    rw [ofGrouping, ofGrouping]
    show (if site.definition.plain.isPending pending then _ else _) = Building.plain _ (ite _ _ _)
    rw [Definition.isPending_plain]
    split
    · rw [cycleError_plain]
      rfl
    · have hdefinition : site.plain.definition = site.definition.plain := rfl
      rw [hdefinition, Definition.key_plain, Definition.qualifiedName_plain]
      show copyAll e.plain _ _ _ _ _ _
        (Tree.children (site.definition.statement.map Declared.plain)) = _
      rw [Tree.children_map, ← Tree.mapForest_eq]
      exact copyAll_plain _ (ih _) true false site.definition.inner Node.isGroupingContent _

theorem ofSource_plain (s : DeclaredSource) :
    ofSource e.plain s.plain = .plain (List.map (Tree.map NodeLabel.plain)) (ofSource e s) := by
  unfold ofSource
  dsimp only
  show copyAll e.plain (ofGrouping _ (e.model.plain.countOfKind .grouping) _) _ _ _ _ _
    (Tree.children (s.root.map Declared.plain)) = _
  rw [Tree.children_map, ← Tree.mapForest_eq, DeclaredModel.countOfKind_plain]
  exact copyAll_plain s (ofGrouping_plain e _ []) false false (.top e.module) _ s.root.children

theorem nodes_plain : nodes e.plain = .plain (List.map (Tree.map NodeLabel.plain)) (nodes e) := by
  unfold nodes
  show ((e.model.plain.family e.module).mapM (ofSource e.plain) >>= _) = _
  rw [DeclaredModel.family_plain]
  apply Building.plain_bind (Building.plain_mapM (ofSource_plain e) (e.model.family e.module))
  intro parts
  rw [← List.map_flatten]
  rfl

end Expansion

end YangSchema
