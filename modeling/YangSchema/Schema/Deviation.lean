import YangSchema.Schema.Forest

/-!
# Deviations

A `deviation` changes the node to which its path leads. It either takes the node out or changes its
properties: its `deviate` statements add, replace or delete them, one after the other. Deviations
are applied behind all augments, module by module.
-/

namespace YangSchema

/-- What a `deviate` statement does. -/
inductive Deviate where
  | notSupported
  | add
  | replace
  | delete
  deriving Repr, DecidableEq

namespace Deviate

/-- The argument of a `deviate` statement. -/
def text : Deviate → String
  | .notSupported => "not-supported"
  | .add => "add"
  | .replace => "replace"
  | .delete => "delete"

/-- Reads the argument of a `deviate` statement. -/
def ofString? (text : String) : Option Deviate :=
  [notSupported, add, replace, delete].find? fun d => d.text == text

end Deviate

namespace Deviation

/-- The error of a `deviation` statement. -/
def error (d : Node) (fault : DeviationFault) : Error :=
  .deviation d.label.source d.label.location (d.label.argument.getD "") fault

/-! ## Properties -/

/-- The target with `property` behind its children. -/
def added (d : Node) (kind : Kind) (cardinality : Cardinality) (property target : Node) :
    Result Node :=
  if cardinality.isSingle && target.children.any (Node.is · kind) then
    .error (error d (.alreadyPresent kind))
  else .ok (target.addChild property)

/-- The target with `property` in place of all its properties of the same kind. -/
def replaced (d : Node) (kind : Kind) (property target : Node) : Result Node :=
  if target.children.any (Node.is · kind) then
    .ok ((target.removeChildren (Node.is · kind)).addChild property)
  else .error (error d (.nothingToReplace kind))

/-- The target without the first property of the kind and argument of `property`. -/
def deleted (d : Node) (kind : Kind) (property target : Node) : Result Node :=
  let same := fun n => Node.is n kind && n.label.argument == property.label.argument
  match target.children.findIdx? same with
  | some place => .ok (Tree.remove [place] target)
  | none => .error (error d (.nothingToDelete kind (property.label.argument.getD "")))

/-- Applies one property of a `deviate` statement; properties that are not built in are passed
over. -/
def applyProperty (d : Node) (deviate : Deviate) (targetKind : Kind) (target property : Node) :
    Result Node :=
  match Node.kind? property with
  | none => .ok target
  | some kind =>
    match targetKind.substatement? kind with
    | none => .error (error d (.notApplicable kind targetKind))
    | some cardinality =>
      match deviate with
      | .add => added d kind cardinality property target
      | .replace => replaced d kind property target
      | .delete => deleted d kind property target
      | .notSupported => .ok target

/-- Applies `deviate` statements to a target. -/
def applyProperties (d : Node) (targetKind : Kind) (target : Node)
    (deviates : List (Deviate × Node)) : Result Node :=
  deviates.foldlM
    (fun t deviate => deviate.2.children.foldlM (applyProperty d deviate.1 targetKind) t) target

/-! ## Statements -/

/-- The `deviate` statements of a `deviation`, with what each of them does. -/
def deviates (d : Node) : Result (List (Deviate × Node)) :=
  (Node.childrenOfKind d .deviate).mapM fun n =>
    let text := n.label.argument.getD ""
    match Deviate.ofString? text with
    | some deviate => .ok (deviate, n)
    | none => .error (error d (.unknownDeviate text))

/-- The node to which a `deviation` leads. -/
def target (model : DeclaredModel) (f : Forest) (d : Node) : Result Target :=
  match Forest.locate model f d.label.source (d.label.argument.getD "") with
  | .ok target => .ok target
  | .error fault => .error (error d (.path fault))

/-- Applies one `deviation`. -/
def apply (model : DeclaredModel) (f : Forest) (d : Node) : Result Forest := do
  let target ← target model f d
  match Node.kind? target.node with
  | none => .error (error d .notASchemaNode)
  | some targetKind =>
    let deviates ← deviates d
    if deviates.any fun deviate => deviate.1 = .notSupported then
      if 1 < deviates.length then .error (error d .notSupportedCombined)
      else return f.remove target
    else return f.replace target (← applyProperties d targetKind target.node deviates)

/-- Applies all deviations of all modules. -/
def applyAll (model : DeclaredModel) (f : Forest) : Result Forest :=
  (f.flatMap fun t => t.statements .deviation).foldlM (apply model) f

end Deviation

end YangSchema
