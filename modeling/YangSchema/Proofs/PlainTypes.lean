import YangSchema.Proofs.PlainDeclarations
import YangSchema.Proofs.TypeResolution

/-!
# Resolving types without locations

Definitions are looked up by name and told apart by their places, which count statements; where they
were written is only said in messages. So a reference is resolved to the same definition, and a type
to the same type.
-/

namespace YangSchema

/-! ## Scopes -/

/-- A statement of a source without locations. -/
def Frame.plain (f : Frame) : Frame := ⟨f.source.plain, f.statement.map Declared.plain⟩

/-- A scope without locations. -/
def Scope.plain (s : Scope) : Scope := ⟨s.module, s.frames.map Frame.plain⟩

namespace Definition

/-- A definition without locations. -/
def plain (d : Definition) : Definition :=
  ⟨d.source.plain, d.statement.map Declared.plain, d.scope.plain⟩

variable (model : DeclaredModel) (kind : Kind) (name : String) (module : SourceId) (d : Definition)

@[simp] theorem key_plain : d.plain.key = d.key := by
  unfold key plain
  rw [Tree.label_map]
  rfl

@[simp] theorem qualifiedName_plain : d.plain.qualifiedName = d.qualifiedName := by
  unfold qualifiedName plain
  rw [Declaration.argumentText_plain]
  rfl

theorem among?_plain (parent : Declaration) : among? kind name (parent.map Declared.plain)
    = (among? kind name parent).map (Tree.map Declared.plain) := by
  unfold among?
  rw [Declaration.childrenOfKind_plain, List.find?_map]
  simp only [Function.comp_def, Tree.label_map]
  rfl

theorem atTop?_plain :
    atTop? model.plain kind name module = (atTop? model kind name module).map plain := by
  unfold atTop?
  rw [DeclaredModel.family_plain, List.findSome?_map, List.map_findSome?]
  congr 1
  funext s
  show (among? kind name (s.root.map Declared.plain)).map _
    = ((among? kind name s.root).map _).map plain
  rw [among?_plain, Option.map_map, Option.map_map]
  rfl

theorem inFrames?_plain (fs : List Frame) :
    inFrames? kind name module (fs.map Frame.plain)
      = (inFrames? kind name module fs).map plain := by
  induction fs with
  | nil => rfl
  | cons f fs ih =>
    have hstatement : f.plain.statement = f.statement.map Declared.plain := rfl
    rw [List.map_cons, inFrames?, inFrames?, hstatement, among?_plain]
    cases among? kind name f.statement with
    | some d => rfl
    | none => exact ih

theorem visible?_plain (scope : Scope) :
    visible? model.plain kind name scope.plain = (visible? model kind name scope).map plain := by
  unfold visible?
  rw [Option.map_or]
  exact congrArg₂ _ (inFrames?_plain kind name _ _) (atTop?_plain model kind name _)

theorem refersTo?_plain (source : DeclaredSource) (scope : Scope) :
    refersTo? model.plain source.plain kind name scope.plain
      = (refersTo? model source kind name scope).map plain := by
  unfold refersTo?
  cases Text.splitOnce? ':' name with
  | none => exact visible?_plain model kind name scope
  | some parts =>
    obtain ⟨p, bare⟩ := parts
    have htarget : source.plain.prefixTarget? p = source.prefixTarget? p := rfl
    dsimp only
    rw [htarget]
    cases source.prefixTarget? p with
    | none => rfl
    | some module =>
      show (if module = source.owner then _ else _) = Option.map plain (ite _ _ _)
      split
      · exact visible?_plain model kind bare scope
      · exact atTop?_plain model kind bare module

theorem resolve_plain (source : DeclaredSource) (reference : Declared) (scope : Scope) :
    resolve model.plain source.plain kind reference.plain scope.plain
      = .plain plain (resolve model source kind reference scope) := by
  have hargument : reference.plain.argument = reference.argument := rfl
  unfold resolve
  dsimp only
  rw [hargument, refersTo?_plain]
  cases refersTo? model source kind (reference.argument.getD "") scope <;> rfl

@[simp] theorem cycle_plain (pending : List Pending) : d.plain.cycle pending = d.cycle pending := by
  unfold cycle
  rw [key_plain, qualifiedName_plain]

@[simp] theorem isPending_plain (pending : List Pending) :
    d.plain.isPending pending = d.isPending pending := by
  unfold isPending
  rw [key_plain]

end Definition

@[simp] theorem DeclaredModel.countOfKind_plain (m : DeclaredModel) (kind : Kind) :
    m.plain.countOfKind kind = m.countOfKind kind := by
  unfold countOfKind
  have hsource (s : DeclaredSource) : s.plain.root.subtrees.filter (Declaration.is · kind)
      = (s.root.subtrees.filter (Declaration.is · kind)).map (Tree.map Declared.plain) := by
    show (s.root.map Declared.plain).subtrees.filter (Declaration.is · kind) = _
    rw [Tree.subtrees_map, List.filter_map]
    simp only [Function.comp_def, Declaration.is_plain]
  show ((m.sources.map DeclaredSource.plain).flatMap _).length = _
  rw [List.flatMap_map]
  simp only [hsource, List.length_flatMap, List.length_map]

/-! ## Restrictions -/

namespace TypeUse

/-- A `type` statement without locations. -/
def plain (u : TypeUse) : TypeUse := { u with statement := u.statement.map Declared.plain }

variable (u : TypeUse) (t : EffectiveType)

theorem fault_plain {α β : Type} (h : α → β) (f : RestrictionFault) :
    (u.plain.fault f : Result β) = .plain h (u.fault f) := by
  unfold fault plain
  rw [Tree.label_map, Declaration.argumentText_plain]
  rfl

@[simp] theorem firstChild?_plain (kind : Kind) : u.plain.statement.firstChild? kind
    = (u.statement.firstChild? kind).map (Tree.map Declared.plain) :=
  Declaration.firstChild?_plain u.statement kind

@[simp] theorem arguments_plain (kind : Kind) : u.plain.arguments kind = u.arguments kind := by
  unfold arguments plain
  rw [Declaration.childrenOfKind_plain, List.filterMap_map]
  simp only [Function.comp_def, Tree.label_map]
  rfl

theorem fractionDigits_plain : u.plain.fractionDigits t = .plainError (u.fractionDigits t) := by
  unfold fractionDigits
  rw [firstChild?_plain]
  cases u.statement.firstChild? .fractionDigits with
  | none => exact Result.plain_ite (fault_plain u _ _) rfl
  | some d =>
    dsimp only [Option.map_some]
    rw [Tree.label_map]
    apply Result.plain_ite
    · exact fault_plain u _ _
    · have hargument : d.label.plain.argument = d.label.argument := rfl
      rw [hargument]
      cases d.label.argument.bind (Text.unsigned? (Text.wordMax 8)) with
      | some digits => rfl
      | none => exact fault_plain u _ _

theorem narrow_plain (kind : Kind) (allowed : List Interval) (scale : Option Nat) (text : String) :
    u.plain.narrow kind allowed scale text = .plainError (u.narrow kind allowed scale text) := by
  unfold narrow
  cases Interval.listOfString? text allowed scale with
  | none => exact fault_plain u _ _
  | some stated => exact Result.plain_ite rfl (fault_plain u _ _)

theorem range_plain : u.plain.range t = .plainError (u.range t) := by
  unfold range
  rw [firstChild?_plain]
  cases u.statement.firstChild? .range with
  | none => rfl
  | some d =>
    dsimp only [Option.map_some]
    rw [Declaration.argumentText_plain]
    apply Result.plain_ite
    · exact Result.plain_bind (narrow_plain u _ _ _ _) fun _ => rfl
    · exact fault_plain u _ _

theorem length_plain : u.plain.length t = .plainError (u.length t) := by
  unfold length
  rw [firstChild?_plain]
  cases u.statement.firstChild? .length with
  | none => rfl
  | some d =>
    dsimp only [Option.map_some]
    rw [Declaration.argumentText_plain]
    apply Result.plain_ite
    · exact Result.plain_bind (narrow_plain u _ _ _ _) fun _ => rfl
    · exact fault_plain u _ _

theorem pattern_plain (d : Declaration) :
    u.plain.pattern t (d.map Declared.plain) = .plainError (u.pattern t d) := by
  unfold pattern
  rw [Declaration.argumentText_plain, Declaration.firstChild?_plain, Option.isSome_map]
  apply Result.plain_ite
  · exact fault_plain u _ _
  · exact Result.plain_ite rfl (fault_plain u _ _)

theorem patterns_plain : u.plain.patterns t = .plainError (u.patterns t) := by
  unfold patterns
  have hpatterns := Result.plain_mapM (pattern_plain u t) (u.statement.childrenOfKind .pattern)
  rw [← Declaration.childrenOfKind_plain] at hpatterns
  apply Result.plain_bind hpatterns
  intro added
  rw [List.map_id']
  rfl

theorem nameFault?_plain (kind : Kind) (inherited before stated : List String) :
    u.plain.nameFault? kind inherited before stated
      = u.nameFault? kind inherited before stated := by
  induction stated generalizing before with
  | nil => rfl
  | cons name rest ih =>
    rw [nameFault?, nameFault?, ih]
    rfl

theorem names_plain (kind : Kind) (base : Builtin) (inherited : List String) :
    u.plain.names kind base t inherited = .plainError (u.names kind base t inherited) := by
  unfold names
  dsimp only
  rw [arguments_plain, nameFault?_plain]
  apply Result.plain_ite
  · exact Result.plain_ite (fault_plain u _ _) rfl
  · apply Result.plain_ite
    · exact fault_plain u _ _
    · cases u.nameFault? kind inherited [] (u.arguments kind) with
      | some f => exact fault_plain u _ _
      | none => rfl

theorem enums_plain : u.plain.enums t = .plainError (u.enums t) :=
  Result.plain_bind (names_plain u t _ _ _) fun _ => rfl

theorem bits_plain : u.plain.bits t = .plainError (u.bits t) :=
  Result.plain_bind (names_plain u t _ _ _) fun _ => rfl

theorem path_plain : u.plain.path t = .plainError (u.path t) := by
  unfold path
  dsimp only
  rw [firstChild?_plain]
  cases u.statement.firstChild? .path with
  | none => exact Result.plain_ite (fault_plain u _ _) rfl
  | some d =>
    dsimp only [Option.map_some]
    rw [Tree.label_map]
    exact Result.plain_ite rfl (fault_plain u _ _)

theorem bases_plain : u.plain.bases t = .plainError (u.bases t) := by
  unfold bases
  dsimp only
  rw [arguments_plain]
  apply Result.plain_ite
  · exact Result.plain_ite (fault_plain u _ _) rfl
  · exact Result.plain_ite rfl (fault_plain u _ _)

theorem requireInstance_plain : u.plain.requireInstance t = .plainError (u.requireInstance t) := by
  unfold requireInstance
  rw [firstChild?_plain]
  cases u.statement.firstChild? .requireInstance with
  | none => rfl
  | some d =>
    dsimp only [Option.map_some]
    rw [Tree.label_map]
    exact Result.plain_ite rfl (fault_plain u _ _)

theorem checkMembers_plain : u.plain.checkMembers t = .plainError (u.checkMembers t) := by
  unfold checkMembers
  dsimp only
  rw [firstChild?_plain, Option.isSome_map]
  apply Result.plain_ite
  · exact fault_plain u _ _
  · exact Result.plain_ite (fault_plain u _ _) rfl

theorem restrictValues_plain : u.plain.restrictValues t = .plainError (u.restrictValues t) := by
  unfold restrictValues
  apply Result.plain_bind (fractionDigits_plain u t)
  intro t
  apply Result.plain_bind (range_plain u t)
  intro t
  apply Result.plain_bind (length_plain u t)
  intro t
  apply Result.plain_bind (patterns_plain u t)
  intro t
  exact Result.plain_bind (enums_plain u t) (bits_plain u)

theorem restrictReferences_plain :
    u.plain.restrictReferences t = .plainError (u.restrictReferences t) := by
  unfold restrictReferences
  apply Result.plain_bind (path_plain u t)
  intro t
  exact Result.plain_bind (bases_plain u t) (requireInstance_plain u)

end TypeUse

/-! ## Types -/

namespace EffectiveType

variable {model : DeclaredModel} {defined defined' : Definition → Building EffectiveType}

theorem named_plain (h : ∀ d, defined' d.plain = .plainError (defined d)) (source : DeclaredSource)
    (scope : Scope) (reference : Declared) :
    named model.plain defined' source.plain scope.plain reference.plain
      = .plainError (named model defined source scope reference) := by
  unfold named
  dsimp only [Declared.plain, Head.plain]
  cases Builtin.ofName? (reference.argument.getD "") with
  | some base => rfl
  | none =>
    apply Building.plain_bind (Building.plain_lift (Definition.resolve_plain model _ _ _ _))
    intro d
    exact Building.plain_bind (h d) fun _ => rfl

mutual

theorem ofDeclaration_plain (h : ∀ d, defined' d.plain = .plainError (defined d))
    (source : DeclaredSource) (scope : Scope) : ∀ d : Declaration,
    ofDeclaration model.plain defined' source.plain scope.plain (d.map Declared.plain)
      = .plainError (ofDeclaration model defined source scope d)
  | ⟨label, children⟩ => by
    rw [Tree.map, ofDeclaration, ofDeclaration]
    apply Building.plain_bind (named_plain h source scope label)
    rintro ⟨t, derived⟩
    have hstatement :
        TypeUse.mk source.plain.id ⟨label.plain, Tree.mapForest Declared.plain children⟩ derived
          = TypeUse.plain ⟨source.id, ⟨label, children⟩, derived⟩ := rfl
    dsimp only
    rw [hstatement]
    apply Building.plain_bind (Building.plain_lift (TypeUse.restrictValues_plain _ t))
    intro t
    apply Building.plain_bind (Building.plain_lift (TypeUse.checkMembers_plain _ t))
    intro _
    apply Building.plain_bind (membersOf_plain h source scope children)
    intro members
    exact Building.plain_lift (TypeUse.restrictReferences_plain _ _)

theorem membersOf_plain (h : ∀ d, defined' d.plain = .plainError (defined d))
    (source : DeclaredSource) (scope : Scope) : ∀ ds : List Declaration,
    membersOf model.plain defined' source.plain scope.plain (Tree.mapForest Declared.plain ds)
      = .plainError (membersOf model defined source scope ds)
  | [] => rfl
  | d :: ds => by
    rw [Tree.mapForest, membersOf, membersOf, Declaration.is_plain]
    cases Declaration.is d .type with
    | true =>
      apply Building.plain_bind (ofDeclaration_plain h source scope d)
      intro t
      exact Building.plain_bind (membersOf_plain h source scope ds) fun _ => rfl
    | false => exact membersOf_plain h source scope ds

end

@[simp] theorem derive_plain (d : Definition) (t : EffectiveType) :
    derive d.plain t = derive d t := by
  unfold derive
  rw [Definition.qualifiedName_plain]
  show { t with
    typedefs := _
    units := (Declaration.childArgument? (d.statement.map Declared.plain) .units).or t.units
    default := (Declaration.childArgument? (d.statement.map Declared.plain) .default).or t.default }
      = _
  rw [Declaration.childArgument?_plain, Declaration.childArgument?_plain]

theorem cycleError_plain (pending : List Definition.Pending) (d : Definition) :
    cycleError pending d.plain = (cycleError pending d).plain := by
  unfold cycleError
  rw [Definition.cycle_plain]
  show Error.typeCycle _ (d.statement.map Declared.plain).label.location _ = _
  rw [Tree.label_map]
  rfl

theorem typeStatement_plain (d : Definition) :
    typeStatement d.plain = .plain (Tree.map Declared.plain) (typeStatement d) := by
  have hstatement : d.plain.statement = d.statement.map Declared.plain := rfl
  unfold typeStatement
  rw [hstatement, Declaration.firstChild?_plain, Tree.label_map]
  cases d.statement.firstChild? .type <;> rfl

theorem ofDefinition_plain (depth : Nat) (pending : List Definition.Pending) (d : Definition) :
    ofDefinition model.plain depth pending d.plain
      = .plainError (ofDefinition model depth pending d) := by
  induction depth using Nat.strongRecOn generalizing pending d with
  | ind depth ih =>
    funext table
    show _ = Result.plain _ (ofDefinition model depth pending d table)
    cases hlookup : table.lookup d.key with
    | some t =>
      have hlookup' : table.lookup d.plain.key = some t := by rw [d.key_plain, hlookup]
      rw [ofDefinition_of_lookup hlookup, ofDefinition_of_lookup hlookup']
      rfl
    | none =>
      have hlookup' : table.lookup d.plain.key = none := by rw [d.key_plain, hlookup]
      by_cases hpending : d.isPending pending = true
      · have hpending' : d.plain.isPending pending = true := by rwa [d.isPending_plain]
        rw [ofDefinition_of_pending hlookup hpending, ofDefinition_of_pending hlookup' hpending',
          cycleError_plain]
        rfl
      · have hpending' : ¬ d.plain.isPending pending = true := by rwa [d.isPending_plain]
        cases depth with
        | zero =>
          rw [ofDefinition_zero hlookup, ofDefinition_zero hlookup', cycleError_plain]
          rfl
        | succ depth =>
          rw [ofDefinition_succ hlookup hpending, ofDefinition_succ hlookup' hpending', d.key_plain,
            d.qualifiedName_plain]
          refine congrFun (g := Building.plainError _) ?_ table
          apply Building.plain_bind (Building.plain_lift (typeStatement_plain d))
          intro statement
          have hdefined := ih depth (Nat.lt_succ_self depth) (pending ++ [(d.key, d.qualifiedName)])
          apply Building.plain_bind (ofDeclaration_plain hdefined d.source d.inner statement)
          intro type
          rw [derive_plain]
          rfl

theorem resolve_plain (source : DeclaredSource) (scope : Scope) (statement : Declaration) :
    resolve model.plain source.plain scope.plain (statement.map Declared.plain)
      = .plainError (resolve model source scope statement) := by
  unfold resolve
  rw [DeclaredModel.countOfKind_plain]
  exact ofDeclaration_plain (ofDefinition_plain _ []) source scope statement

end EffectiveType

end YangSchema
