import YangSchema.SourceId
import YangSchema.Statement.Parser
import YangSchema.Grammar.Substatement
import YangSchema.Types.Builtin

/-!
# Errors

Every way in which reading, linking, checking or building can fail, as a cause with the data that
describe it. `Error.message` puts a cause into words.
-/

namespace YangSchema

/-- What can be wrong with what a source says about its own identity. -/
inductive IdentityFault where
  | fileExtension (file extension : String)
  | emptyFileName (file : String)
  | notAModule (origin : String) (found : Keyword)
  | unnamed (origin : String) (keyword : Keyword)
  deriving Repr, DecidableEq

/-- What can be wrong with the relations between sources. -/
inductive LinkFault where
  | registeredTwice (first second : Location)
  | importNotFound (module : SourceId) (location : Location)
  | includeNotFound (submodule : SourceId) (location : Location)
  | foreignSubmodule (submodule : SourceId) (owner including : String) (location : Location)
  | includeCycle (members : List SourceId)
  | ownerNotFound (name : String)
  | reboundPrefix (name : String)
  | unknownPrefix (name reference : String) (location : Location)
  deriving Repr, DecidableEq

/-- What can be wrong with a statement in its place. -/
inductive GrammarFault where
  | missingArgument
  | unwantedArgument
  | invalidArgument (argument : String)
  | unsupportedVersion
  | missingSubstatement (keyword : String)
  | notAllowedUnder (parent : Kind)
  | count (child : Kind) (count : Nat) (allowed : Cardinality)
  | sectionOrder (found current : Section)
  | notRefinable (property target : Kind)
  deriving Repr, DecidableEq

/-- What a name can refer to. -/
inductive ReferenceKind where
  | grouping
  | typedef
  deriving Repr, DecidableEq

/-- What can be wrong with the path of an `augment` or a `deviation`. -/
inductive PathFault where
  | malformed
  | unknownPrefix (step : String)
  | unavailableModule
  | nodeNotFound (step : String)
  deriving Repr, DecidableEq

/-- What can be wrong with an `augment`. -/
inductive AugmentFault where
  | path (fault : PathFault)
  | targetNotFound
  | targetNotAugmentable
  | keywordNotAugmentable (keyword : Keyword)
  | nameTaken (name : String)
  deriving Repr, DecidableEq

/-- What can be wrong with a `deviation`. -/
inductive DeviationFault where
  | path (fault : PathFault)
  | notASchemaNode
  | unknownDeviate (argument : String)
  | notSupportedCombined
  | notApplicable (property target : Kind)
  | alreadyPresent (property : Kind)
  | nothingToReplace (property : Kind)
  | nothingToDelete (property : Kind) (argument : String)
  deriving Repr, DecidableEq

/-- What can be wrong with a `type` statement. -/
inductive RestrictionFault where
  | notAllowedOn (property : Kind) (base : Builtin)
  | onlyOnItself (property : Kind) (base : Builtin)
  | required (base : Builtin) (property : Kind)
  | malformed (property : Kind) (argument : String)
  | notWithin (property : Kind) (argument : String) (allowed : List Interval)
  | invalidFractionDigits
  | invalidPattern (expression : String)
  | definedTwice (property : Kind) (name : String)
  | notInherited (property : Kind) (name : String)
  deriving Repr, DecidableEq

/-- A failure, with its cause. -/
inductive Error where
  | identity (fault : IdentityFault)
  | date (text : String)
  | statementSyntax (failure : Statement.Failure)
  | linkage (source : SourceId) (fault : LinkFault)
  | unknownStatement (source : SourceId) (keyword : Keyword) (location : Location)
  | grammar (source : SourceId) (keyword : String) (location : Location) (fault : GrammarFault)
  | groupingCycle (source : SourceId) (location : Location) (cycle : List String)
  | unresolved (source : SourceId) (location : Location) (kind : ReferenceKind) (name : String)
  | refineTarget (source : SourceId) (location : Location) (target : String)
  | augment (source : SourceId) (location : Location) (target : String) (fault : AugmentFault)
  | deviation (source : SourceId) (location : Location) (target : String) (fault : DeviationFault)
  | typeCycle (source : SourceId) (location : Location) (cycle : List String)
  | restriction (source : SourceId) (location : Location) (type : String)
      (fault : RestrictionFault)
  | noProgress (blocked : List SourceId)
  | mutualAugments (modules : List SourceId)
  | unreadableText
  deriving Repr, DecidableEq

/-! ## Wording -/

/-- The wording of a fault. -/
def IdentityFault.message : IdentityFault → String
  | .fileExtension file extension =>
    "file name '" ++ file ++ "' does not end with ." ++ extension
  | .emptyFileName file => "file name '" ++ file ++ "' has an empty module name"
  | .notAModule origin found =>
    origin ++ ": root statement must be 'module' or 'submodule', found '" ++ found.text ++ "'"
  | .unnamed origin keyword => origin ++ ": " ++ keyword.text ++ " has no name"

/-- The wording of a fault. -/
def LinkFault.message : LinkFault → String
  | .registeredTwice first second =>
    "source registered twice (" ++ toString first ++ " and " ++ toString second ++ ")"
  | .importNotFound module location =>
    "imported module " ++ module.text ++ " not found (at " ++ toString location ++ ")"
  | .includeNotFound submodule location =>
    "included submodule " ++ submodule.text ++ " not found (at " ++ toString location ++ ")"
  | .foreignSubmodule submodule owner including location =>
    "submodule " ++ submodule.text ++ " belongs to '" ++ owner ++ "', not '" ++ including
      ++ "' (at " ++ toString location ++ ")"
  | .includeCycle members => "include cycle: " ++ " -> ".intercalate (members.map (·.text))
  | .ownerNotFound name => "belongs-to module '" ++ name ++ "' not found"
  | .reboundPrefix name => "prefix '" ++ name ++ "' is bound more than once"
  | .unknownPrefix name reference location =>
    "unknown prefix '" ++ name ++ "' in '" ++ reference ++ "' at " ++ toString location

/-- The wording of a fault. -/
def GrammarFault.message : GrammarFault → String
  | .missingArgument => "missing argument"
  | .unwantedArgument => "takes no argument"
  | .invalidArgument argument => "invalid argument '" ++ argument ++ "'"
  | .unsupportedVersion => "unsupported language version"
  | .missingSubstatement keyword => "missing '" ++ keyword ++ "' substatement"
  | .notAllowedUnder parent => "not allowed under '" ++ parent.keyword ++ "'"
  | .count child n allowed =>
    "'" ++ child.keyword ++ "' appears " ++ toString n ++ " times, allowed " ++ allowed.text
  | .sectionOrder found current =>
    found.text ++ " statement after the " ++ current.text ++ " section"
  | .notRefinable property target =>
    "cannot refine '" ++ property.keyword ++ "' of a " ++ target.keyword

/-- The name of what is referred to. -/
def ReferenceKind.text : ReferenceKind → String
  | .grouping => "grouping"
  | .typedef => "typedef"

/-- The wording of a fault. -/
def PathFault.message : PathFault → String
  | .malformed => "malformed absolute path"
  | .unknownPrefix step => "unknown prefix in '" ++ step ++ "'"
  | .unavailableModule => "target module is not available"
  | .nodeNotFound step => "node '" ++ step ++ "' not found"

/-- The wording of a fault. -/
def AugmentFault.message : AugmentFault → String
  | .path fault => fault.message
  | .targetNotFound => "target node not found"
  | .targetNotAugmentable => "target node cannot be augmented"
  | .keywordNotAugmentable keyword => "'" ++ keyword.text ++ "' cannot be augmented"
  | .nameTaken name => "target already contains '" ++ name ++ "'"

/-- The wording of a fault. -/
def DeviationFault.message : DeviationFault → String
  | .path fault => fault.message
  | .notASchemaNode => "target is not a schema node"
  | .unknownDeviate argument => "unknown deviate '" ++ argument ++ "'"
  | .notSupportedCombined => "not-supported cannot be combined with other deviates"
  | .notApplicable property target =>
    "'" ++ property.keyword ++ "' does not apply to a " ++ target.keyword
  | .alreadyPresent property => "target already has '" ++ property.keyword ++ "'"
  | .nothingToReplace property => "target has no '" ++ property.keyword ++ "' to replace"
  | .nothingToDelete property argument =>
    "target has no '" ++ property.keyword ++ " " ++ argument ++ "' to delete"

/-- The wording of a fault. -/
def RestrictionFault.message : RestrictionFault → String
  | .notAllowedOn property base => property.keyword ++ " is not allowed on " ++ base.name
  | .onlyOnItself .type base => "member types are only allowed on " ++ base.name ++ " itself"
  | .onlyOnItself property base =>
    property.keyword ++ " is only allowed on " ++ base.name ++ " itself"
  | .required base .type => base.name ++ " requires member types"
  | .required base .enum => base.name ++ " requires at least one enum"
  | .required base .bit => base.name ++ " requires at least one bit"
  | .required base property => base.name ++ " requires " ++ property.keyword
  | .malformed property argument => "malformed " ++ property.keyword ++ " '" ++ argument ++ "'"
  | .notWithin property argument allowed =>
    property.keyword ++ " '" ++ argument ++ "' is not within " ++ Interval.listText allowed
  | .invalidFractionDigits => "invalid fraction-digits"
  | .invalidPattern expression => "invalid pattern '" ++ expression ++ "'"
  | .definedTwice property name => property.keyword ++ " '" ++ name ++ "' is defined twice"
  | .notInherited property name =>
    property.keyword ++ " '" ++ name ++ "' is not defined by the base type"

namespace Error

/-- The names of sources, with commas between them. -/
def sourceList (ids : List SourceId) : String := ", ".intercalate (ids.map (·.text))

/-- The wording of an error. -/
def message : Error → String
  | .identity fault => "Malformed source identity: " ++ fault.message
  | .date text => "Invalid revision '" ++ text ++ "': expected YYYY-MM-DD"
  | .statementSyntax failure =>
    "Syntax error at " ++ toString failure.location ++ ": " ++ failure.fault.message
  | .linkage source fault => "Linkage failed for " ++ source.text ++ ": " ++ fault.message
  | .unknownStatement source keyword location =>
    "Unknown statement '" ++ keyword.text ++ "' in " ++ source.text ++ " at " ++ toString location
  | .grammar source keyword location fault =>
    "Invalid '" ++ keyword ++ "' in " ++ source.text ++ " at " ++ toString location ++ ": "
      ++ fault.message
  | .groupingCycle source location cycle =>
    "Grouping cycle in " ++ source.text ++ " at " ++ toString location ++ ": "
      ++ " -> ".intercalate cycle
  | .unresolved source location kind name =>
    "Unresolved " ++ kind.text ++ " '" ++ name ++ "' in " ++ source.text ++ " at "
      ++ toString location
  | .refineTarget source location target =>
    "Refine target '" ++ target ++ "' not found in " ++ source.text ++ " at " ++ toString location
  | .augment source location target fault =>
    "Augment target '" ++ target ++ "' in " ++ source.text ++ " at " ++ toString location ++ ": "
      ++ fault.message
  | .deviation source location target fault =>
    "Deviation of '" ++ target ++ "' in " ++ source.text ++ " at " ++ toString location ++ ": "
      ++ fault.message
  | .typeCycle source location cycle =>
    "Typedef cycle in " ++ source.text ++ " at " ++ toString location ++ ": "
      ++ " -> ".intercalate cycle
  | .restriction source location type fault =>
    "Invalid restriction of type '" ++ type ++ "' in " ++ source.text ++ " at "
      ++ toString location ++ ": " ++ fault.message
  | .noProgress blocked => "No progress resolving dependencies of " ++ sourceList blocked
  | .mutualAugments modules =>
    "Effective model failed: modules augment each other (" ++ sourceList modules ++ ")"
  | .unreadableText => "IO error: stream did not contain valid UTF-8"

instance : ToString Error := ⟨message⟩

/-- The error of a file name that is not that of a source. -/
def ofFileName : SourceId.FileNameFault → Error
  | .extension file extension => .identity (.fileExtension file extension)
  | .emptyName file => .identity (.emptyFileName file)
  | .revision text => .date text

end Error

/-- The result of what can fail. -/
abbrev Result := Except Error

end YangSchema
