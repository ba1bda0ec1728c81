import YangSchema.Proofs.Outcome
import YangSchema.Proofs.Trees

/-!
# Resolving types

Resolving a `type` statement fails only with a name that refers to nothing, with a cycle of
typedefs, with a restriction that does not fit or with a typedef that states no type
(`resolve_failsWith`). -/

namespace YangSchema

/-- The errors of resolving types. -/
inductive IsTypeError : Error → Prop where
  | unresolved (source : SourceId) (location : Location) (kind : ReferenceKind) (name : String) :
    IsTypeError (.unresolved source location kind name)
  | typeCycle (source : SourceId) (location : Location) (cycle : List String) :
    IsTypeError (.typeCycle source location cycle)
  | restriction (source : SourceId) (location : Location) (type : String)
    (fault : RestrictionFault) : IsTypeError (.restriction source location type fault)
  | grammar (source : SourceId) (keyword : String) (location : Location) (fault : GrammarFault) :
    IsTypeError (.grammar source keyword location fault)

/-- The errors of restrictions that do not fit. -/
inductive IsRestrictionError : Error → Prop where
  | mk (source : SourceId) (location : Location) (type : String) (fault : RestrictionFault) :
    IsRestrictionError (.restriction source location type fault)

theorem IsRestrictionError.isTypeError {e : Error} (h : IsRestrictionError e) : IsTypeError e := by
  cases h
  exact .restriction _ _ _ _

/-- A name that refers to nothing is reported as such. -/
theorem Definition.resolve_failsWith (model : DeclaredModel) (source : DeclaredSource)
    (kind : Kind) (reference : Declared) (scope : Scope) :
    (Definition.resolve model source kind reference scope).FailsWith IsTypeError := by
  intro e h
  unfold Definition.resolve at h
  dsimp only at h
  split at h
  · cases h
  · exact Except.error.inj h ▸ .unresolved _ _ _ _

namespace TypeUse

open Result (FailsWith)

variable (u : TypeUse) (t : EffectiveType)

theorem fault_failsWith {α : Type} (f : RestrictionFault) :
    FailsWith IsRestrictionError (u.fault f : Result α) := .error (.mk _ _ _ _)

theorem fractionDigits_failsWith : FailsWith IsRestrictionError (u.fractionDigits t) := by
  unfold fractionDigits
  split
  · split
    · exact u.fault_failsWith _
    · split
      · exact .ok _
      · exact u.fault_failsWith _
  · split
    · exact u.fault_failsWith _
    · exact .ok _

theorem narrow_failsWith (kind : Kind) (allowed : List Interval) (scale : Option Nat)
    (text : String) : FailsWith IsRestrictionError (u.narrow kind allowed scale text) := by
  unfold narrow
  split
  · exact u.fault_failsWith _
  · split
    · exact .ok _
    · exact u.fault_failsWith _

theorem range_failsWith : FailsWith IsRestrictionError (u.range t) := by
  unfold range
  split
  · exact .ok _
  · split
    · exact (u.narrow_failsWith _ _ _ _).bind fun _ => .ok _
    · exact u.fault_failsWith _

theorem length_failsWith : FailsWith IsRestrictionError (u.length t) := by
  unfold length
  split
  · exact .ok _
  · split
    · exact (u.narrow_failsWith _ _ _ _).bind fun _ => .ok _
    · exact u.fault_failsWith _

theorem pattern_failsWith (d : Declaration) : FailsWith IsRestrictionError (u.pattern t d) := by
  unfold pattern
  split
  · exact u.fault_failsWith _
  · split
    · exact .ok _
    · exact u.fault_failsWith _

theorem patterns_failsWith : FailsWith IsRestrictionError (u.patterns t) :=
  (FailsWith.mapM (u.pattern_failsWith t) _).bind fun _ => .ok _

theorem names_failsWith (kind : Kind) (base : Builtin) (inherited : List String) :
    FailsWith IsRestrictionError (u.names kind base t inherited) := by
  unfold names
  dsimp only
  split
  · split
    · exact u.fault_failsWith _
    · exact .ok _
  · split
    · exact u.fault_failsWith _
    · split
      · exact u.fault_failsWith _
      · exact .ok _

theorem path_failsWith : FailsWith IsRestrictionError (u.path t) := by
  unfold path
  dsimp only
  split
  · split
    · exact .ok _
    · exact u.fault_failsWith _
  · split
    · exact u.fault_failsWith _
    · exact .ok _

theorem bases_failsWith : FailsWith IsRestrictionError (u.bases t) := by
  unfold bases
  dsimp only
  split
  · split
    · exact u.fault_failsWith _
    · exact .ok _
  · split
    · exact .ok _
    · exact u.fault_failsWith _

theorem requireInstance_failsWith : FailsWith IsRestrictionError (u.requireInstance t) := by
  unfold requireInstance
  split
  · exact .ok _
  · split
    · exact .ok _
    · exact u.fault_failsWith _

theorem checkMembers_failsWith : FailsWith IsRestrictionError (u.checkMembers t) := by
  unfold checkMembers
  dsimp only
  split
  · exact u.fault_failsWith _
  · split
    · exact u.fault_failsWith _
    · exact .ok _

theorem restrictValues_failsWith : FailsWith IsRestrictionError (u.restrictValues t) :=
  (u.fractionDigits_failsWith t).bind fun t => (u.range_failsWith t).bind fun t =>
    (u.length_failsWith t).bind fun t => (u.patterns_failsWith t).bind fun t =>
      ((u.names_failsWith t _ _ _).bind fun _ => .ok _).bind fun t =>
        (u.names_failsWith t _ _ _).bind fun _ => .ok _

theorem restrictReferences_failsWith : FailsWith IsRestrictionError (u.restrictReferences t) :=
  (u.path_failsWith t).bind fun t => (u.bases_failsWith t).bind fun t =>
    u.requireInstance_failsWith t

end TypeUse

namespace EffectiveType

open Building (FailsWith)

variable {model : DeclaredModel} {defined : Definition → Building EffectiveType}
  {source : DeclaredSource} {scope : Scope}

theorem named_failsWith (hdefined : ∀ d, FailsWith IsTypeError (defined d))
    (reference : Declared) :
    FailsWith IsTypeError (named model defined source scope reference) := by
  unfold named
  dsimp only
  split
  · exact .pure _
  · exact (FailsWith.lift (Definition.resolve_failsWith _ _ _ _ _)).bind fun d =>
      (hdefined d).bind fun _ => .pure _

theorem failsWith_of_restriction {α : Type} {x : Result α} (h : x.FailsWith IsRestrictionError) :
    FailsWith IsTypeError (liftM x : Building α) := .lift (h.mono IsRestrictionError.isTypeError)

/-- Where typedefs fail only with errors of types, so does a `type` statement. -/
theorem ofDeclaration_failsWith (hdefined : ∀ d, FailsWith IsTypeError (defined d))
    (d : Declaration) : FailsWith IsTypeError (ofDeclaration model defined source scope d) := by
  induction d using Tree.induct with
  | step d ih =>
    obtain ⟨label, children⟩ := d
    -- the members are a list of their own; the induction on the statement covers its elements
    have members : ∀ ds : List Declaration,
        (∀ c ∈ ds, FailsWith IsTypeError (ofDeclaration model defined source scope c)) →
        FailsWith IsTypeError (membersOf model defined source scope ds) := by
      intro ds
      induction ds with
      | nil => exact fun _ => by rw [membersOf]; exact .pure _
      | cons c ds ihds =>
        intro h
        have hrest := ihds fun x hx => h x (List.mem_cons_of_mem c hx)
        rw [membersOf]
        split
        · exact (h c List.mem_cons_self).bind fun _ => hrest.bind fun _ => .pure _
        · exact hrest
    rw [ofDeclaration]
    exact (named_failsWith hdefined label).bind fun r =>
      (failsWith_of_restriction (TypeUse.restrictValues_failsWith _ _)).bind fun t =>
        (failsWith_of_restriction (TypeUse.checkMembers_failsWith _ t)).bind fun _ =>
          (members children ih).bind fun ts =>
            failsWith_of_restriction (TypeUse.restrictReferences_failsWith _ _)

/-! ## Typedefs -/

variable {depth : Nat} {pending : List Definition.Pending} {d : Definition} {t : TypeTable}

/-- A typedef that has been resolved keeps its type. -/
theorem ofDefinition_of_lookup {type : EffectiveType} (h : t.lookup d.key = some type) :
    ofDefinition model depth pending d t = .ok (type, t) := by
  unfold ofDefinition
  simp only [bind, StateT.bind, get, getThe, MonadStateOf.get, StateT.get, Except.bind, pure,
    Except.pure, h]
  rfl

/-- A typedef that is being resolved is a cycle. -/
theorem ofDefinition_of_pending (h : t.lookup d.key = none) (hp : d.isPending pending = true) :
    ofDefinition model depth pending d t = .error (cycleError pending d) := by
  unfold ofDefinition
  simp only [bind, StateT.bind, get, getThe, MonadStateOf.get, StateT.get, Except.bind, pure,
    Except.pure, h, if_pos hp]
  rfl

theorem ofDefinition_zero (h : t.lookup d.key = none) :
    ofDefinition model 0 pending d t = .error (cycleError pending d) := by
  unfold ofDefinition
  simp only [bind, StateT.bind, get, getThe, MonadStateOf.get, StateT.get, Except.bind, pure,
    Except.pure, h]
  split <;> rfl

/-- Any other typedef has the type that its `type` statement amounts to, which is then kept. -/
theorem ofDefinition_succ (h : t.lookup d.key = none) (hp : ¬ d.isPending pending = true) :
    ofDefinition model (depth + 1) pending d t = (do
      let statement ← (liftM (typeStatement d) : Building Declaration)
      let type ← ofDeclaration model
        (ofDefinition model depth (pending ++ [(d.key, d.qualifiedName)])) d.source d.inner
        statement
      modify fun table => (d.key, derive d type) :: table
      return derive d type : Building EffectiveType) t := by
  rw [ofDefinition]
  simp only [bind, StateT.bind, get, getThe, MonadStateOf.get, StateT.get, Except.bind, pure,
    Except.pure, h, if_neg hp]

/-- The `type` statement of a typedef stands in it. -/
theorem mem_of_typeStatement {x : Declaration} (hx : typeStatement d = .ok x) :
    x ∈ d.statement.children := by
  unfold typeStatement at hx
  split at hx
  · rename_i y hy
    rw [← Except.ok.inj hx]
    exact List.mem_of_find?_eq_some hy
  · cases hx

theorem typeStatement_failsWith (d : Definition) :
    (typeStatement d).FailsWith IsTypeError := by
  unfold typeStatement
  split
  · exact .ok _
  · exact .error (.grammar _ _ _ _)

theorem ofDefinition_failsWith (depth : Nat) (pending : List Definition.Pending) (d : Definition) :
    FailsWith IsTypeError (ofDefinition model depth pending d) := by
  induction depth generalizing pending d with
  | zero =>
    intro t e h
    cases hlookup : t.lookup d.key with
    | some type => rw [ofDefinition_of_lookup hlookup] at h; cases h
    | none =>
      rw [ofDefinition_zero hlookup] at h
      exact Except.error.inj h ▸ .typeCycle _ _ _
  | succ depth ih =>
    intro t e h
    cases hlookup : t.lookup d.key with
    | some type => rw [ofDefinition_of_lookup hlookup] at h; cases h
    | none =>
      by_cases hp : d.isPending pending = true
      · rw [ofDefinition_of_pending hlookup hp] at h
        exact Except.error.inj h ▸ .typeCycle _ _ _
      · rw [ofDefinition_succ hlookup hp] at h
        have hkeep (type : EffectiveType) : FailsWith IsTypeError (do
            modify fun table => (d.key, derive d type) :: table
            return derive d type : Building EffectiveType) :=
          FailsWith.bind (fun _ => .ok _) fun _ => .pure _
        have hstatement (statement : Declaration) : FailsWith IsTypeError (ofDeclaration model
            (ofDefinition model depth (pending ++ [(d.key, d.qualifiedName)])) d.source d.inner
            statement) :=
          ofDeclaration_failsWith (ih _) statement
        have hsteps := (FailsWith.lift (typeStatement_failsWith d)).bind fun statement =>
          (hstatement statement).bind hkeep
        exact hsteps t e h

/-- Resolving a `type` statement fails only with errors of types. -/
theorem resolve_failsWith (statement : Declaration) :
    FailsWith IsTypeError (resolve model source scope statement) :=
  ofDeclaration_failsWith (fun d => ofDefinition_failsWith _ _ d) statement

end EffectiveType

end YangSchema
