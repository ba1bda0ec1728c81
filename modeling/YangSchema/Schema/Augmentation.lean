import YangSchema.Digraph
import YangSchema.Schema.Forest

/-!
# Augments at the top of modules

A top-level `augment` adds copies of its content to the node to which its path leads. The content is
that of the augmenting module, in its namespace.

A module depends on every other module through whose nodes one of its augments passes. Modules must
not depend on each other in a circle; the augments of a module are applied when all modules on which
it depends are done. Within a module an augment may lead to what another one adds, so those whose
target is missing are tried again as long as some other one succeeds.
-/

namespace YangSchema

/-- The augments of a module that have yet to be applied. -/
structure PendingModule where
  id : SourceId
  augments : List Node

namespace Augmentation

/-- The error of an `augment` statement. -/
def error (a : Node) (fault : AugmentFault) : Error :=
  .augment a.label.source a.label.location (a.label.argument.getD "") fault

/-! ## One augment -/

/-- The content of an `augment` statement. -/
def content (a : Node) : List Node :=
  a.children.filter fun n => Node.isAugmentContent n.label.binding

/-- What siblings must not have in common. -/
def nameOf (n : Node) : SourceId × String := (n.label.module, Node.schemaName n)

/-- Names are compared by their module and their text. -/
instance : LawfulBEq (SourceId × String) := inferInstance

/-- The first node whose name is taken, by `taken` or by a node before it. -/
def firstClash? (taken : List (SourceId × String)) : List Node → Option Node
  | [] => none
  | n :: ns => if nameOf n ∈ taken then some n else firstClash? (nameOf n :: taken) ns

/-- Adds the content of an `augment` to its target. -/
def splice (a : Node) (target : Node) : Result Node :=
  if !(Node.kind? target).any (·.isAugmentable) then
    .error (error a (.keywordNotAugmentable target.label.keyword))
  else
    match firstClash? ((Node.schemaChildren target).map nameOf) (content a) with
    | some n => .error (error a (.nameTaken (Node.schemaName n)))
    | none => .ok (target.addChildren
        ((content a).map fun n => (Node.markAugmenting n).addConditions (Node.conditions a)))

/-- What comes of trying an augment: the new trees, or the fault of its path. -/
def attempt (model : DeclaredModel) (f : Forest) (a : Node) : Result (Except PathFault Forest) :=
  match Forest.locate model f a.label.source (a.label.argument.getD "") with
  | .error fault => .ok (.error fault)
  | .ok target => do return .ok (f.replace target (← splice a target.node))

/-! ## The augments of a module -/

/-- Tries augments in turn; gives the new trees, and those augments that found no target with the
faults of their paths. -/
def sweep (model : DeclaredModel) (f : Forest) :
    List Node → Result (Forest × List (Node × PathFault))
  | [] => .ok (f, [])
  | a :: rest => do
    match ← attempt model f a with
    | .ok f => sweep model f rest
    | .error fault =>
      let (f, left) ← sweep model f rest
      return (f, (a, fault) :: left)

theorem length_sweep_le {model : DeclaredModel} {as : List Node} {f g : Forest}
    {left : List (Node × PathFault)} (h : sweep model f as = .ok (g, left)) :
    left.length ≤ as.length := by
  induction as generalizing f left with
  | nil => simp only [sweep, Except.ok.injEq, Prod.mk.injEq] at h; simp [← h.2]
  | cons a rest ih =>
    simp only [sweep] at h
    cases ht : attempt model f a with
    | error e => rw [ht] at h; cases h
    | ok r =>
      rw [ht] at h
      cases r with
      | ok f' => exact Nat.le_succ_of_le (ih h)
      | error fault =>
        cases hs : sweep model f rest with
        | error e => simp only [hs, bind, Except.bind] at h; cases h
        | ok p =>
          simp only [hs, bind, Except.bind, pure, Except.pure, Except.ok.injEq, Prod.mk.injEq] at h
          have hle : p.2.length ≤ rest.length := ih (by rw [hs, ← h.1])
          simp only [← h.2, List.length_cons]
          omega

/-- Applies the augments of a module, again and again as long as some of them succeed. -/
def applyModule (model : DeclaredModel) (f : Forest) (augments : List Node) : Result Forest :=
  match _h : sweep model f augments with
  | .error e => .error e
  | .ok (g, []) => .ok g
  | .ok (g, (a, fault) :: rest) =>
    if _less : (rest.length + 1) < augments.length then
      applyModule model g (a :: rest.map (·.1))
    else .error (error a (.path fault))
termination_by augments.length
decreasing_by simpa using _less

/-! ## Dependencies -/

/-- The modules through whose nodes the path of an augment passes. -/
def passesThrough (model : DeclaredModel) (a : Node) : List SourceId :=
  ((SchemaPath.steps? true (a.label.argument.getD "")).getD []).filterMap
    (Forest.stepModule? model a.label.source)

/-- The modules on which a module depends. -/
def dependencies (model : DeclaredModel) (f : Forest) (m : PendingModule) : List SourceId :=
  let met := m.augments.flatMap (passesThrough model)
  (f.map (·.id)).filter fun id => id ∈ met && id != m.id

/-- The modules that have augments. -/
def pendingModules (f : Forest) : List PendingModule :=
  (f.map fun t => ⟨t.id, t.statements .augment⟩).filter fun m => !m.augments.isEmpty

/-- Refuses modules that depend on each other in a circle. -/
def checkCycles (f : Forest) (next : SourceId → List SourceId) : Result Unit :=
  match Digraph.firstCycle? (f.map (·.id)) next with
  | none => .ok ()
  | some cycle => .error (.mutualAugments (SourceId.sort cycle))

/-! ## All modules -/

/-- Whether a module depends on none of the modules that are waiting. -/
def isReady (next : SourceId → List SourceId) (waiting : List PendingModule)
    (m : PendingModule) : Bool := (next m.id).all fun id => waiting.all fun w => w.id != id

/-- The modules that are ready. -/
def ready (next : SourceId → List SourceId) (waiting : List PendingModule) :
    List PendingModule := waiting.filter (isReady next waiting)

/-- The modules that have to wait for others. -/
def blocked (next : SourceId → List SourceId) (waiting : List PendingModule) :
    List PendingModule := waiting.filter fun m => !isReady next waiting m

theorem length_blocked_lt {next : SourceId → List SourceId} {waiting : List PendingModule}
    (h : ready next waiting ≠ []) : (blocked next waiting).length < waiting.length := by
  obtain ⟨m, hm⟩ := List.exists_mem_of_ne_nil _ h
  obtain ⟨hw, hr⟩ := List.mem_filter.1 hm
  exact List.length_filter_lt_length_iff_exists.2 ⟨m, hw, by simp [hr]⟩

/-- Applies the augments of the modules that are ready, and so on until none is waiting. -/
def applyRounds (model : DeclaredModel) (next : SourceId → List SourceId) (f : Forest)
    (waiting : List PendingModule) : Result Forest :=
  if waiting.isEmpty then .ok f
  else if _h : ready next waiting = [] then .error (.noProgress (waiting.map (·.id)))
  else do
    let f ← (ready next waiting).foldlM (fun f m => applyModule model f m.augments) f
    applyRounds model next f (blocked next waiting)
termination_by waiting.length
decreasing_by exact length_blocked_lt _h

/-- Applies all augments of all modules. -/
def applyAll (model : DeclaredModel) (f : Forest) : Result Forest := do
  let waiting := pendingModules f
  let next := fun id =>
    ((waiting.find? fun m => m.id = id).map (dependencies model f)).getD []
  checkCycles f next
  applyRounds model next f waiting

end Augmentation

end YangSchema
