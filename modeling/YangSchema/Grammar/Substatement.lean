import YangSchema.Grammar.Kind
import YangSchema.Grammar.Cardinality

/-!
# The grammar of statements

For every kind of statement: whether it takes an argument, which substatements it may have and how
often, what role it plays in the schema tree, and to which section of a module body it belongs.
-/

namespace YangSchema

namespace Kind

/-- Whether a statement has an argument; all but `input` and `output` have. -/
def takesArgument : Kind → Bool
  | .input | .output => false
  | _ => true

/-- Whether a statement defines data nodes. -/
def isDataDefinition : Kind → Bool
  | .container | .leaf | .leafList | .list | .choice | .anydata | .anyxml | .uses => true
  | _ => false

/-- Whether a statement is a node of the schema tree, and so has a qualified name. -/
def isSchemaNode : Kind → Bool
  | .container | .leaf | .leafList | .list | .choice | .case | .anydata | .anyxml
  | .rpc | .action | .input | .output | .notification => true
  | _ => false

/-- Whether an `augment` may add to a statement. -/
def isAugmentable : Kind → Bool
  | .container | .list | .choice | .case | .input | .output | .notification => true
  | _ => false

/-! ## Substatements -/

/-- Every kind of a list, with one bound. -/
def bounded (c : Cardinality) (ks : List Kind) : List (Kind × Cardinality) := ks.map (·, c)

/-- `description` and `reference`. -/
def documentation : List (Kind × Cardinality) := bounded .optional [.description, .reference]

/-- The statements that define data nodes. -/
def dataDefinitions : List (Kind × Cardinality) :=
  bounded .many [.container, .leaf, .leafList, .list, .choice, .anydata, .anyxml, .uses]

/-- What a module and a submodule may both contain. -/
def moduleBody : List (Kind × Cardinality) :=
  bounded .optional [.yangVersion, .organization, .contact]
    ++ bounded .many [.importStmt, .includeStmt, .revision, .extension, .feature, .identity,
        .typedef, .grouping, .augment, .rpc, .notification, .deviation]
    ++ documentation ++ dataDefinitions

/-- The substatements that a statement may have, with their bounds. -/
def substatements : Kind → List (Kind × Cardinality)
  | .module => bounded .one [.namespaceStmt, .prefixStmt] ++ moduleBody
  | .submodule => bounded .one [.belongsTo] ++ moduleBody
  | .importStmt => bounded .one [.prefixStmt] ++ bounded .optional [.revisionDate] ++ documentation
  | .includeStmt => bounded .optional [.revisionDate] ++ documentation
  | .belongsTo => bounded .one [.prefixStmt]
  | .revision => documentation
  | .extension => bounded .optional [.argument, .status] ++ documentation
  | .argument => bounded .optional [.yinElement]
  | .feature => bounded .many [.ifFeature] ++ bounded .optional [.status] ++ documentation
  | .identity => bounded .many [.ifFeature, .base] ++ bounded .optional [.status] ++ documentation
  | .typedef =>
    bounded .one [.type] ++ bounded .optional [.units, .default, .status] ++ documentation
  | .type =>
    bounded .optional [.fractionDigits, .range, .length, .path, .requireInstance]
      ++ bounded .many [.pattern, .enum, .bit, .base, .type]
  | .range | .length | .must => bounded .optional [.errorMessage, .errorAppTag] ++ documentation
  | .pattern => bounded .optional [.modifier, .errorMessage, .errorAppTag] ++ documentation
  | .when => documentation
  | .enum => bounded .many [.ifFeature] ++ bounded .optional [.value, .status] ++ documentation
  | .bit => bounded .many [.ifFeature] ++ bounded .optional [.position, .status] ++ documentation
  | .grouping =>
    bounded .many [.typedef, .grouping, .action, .notification] ++ bounded .optional [.status]
      ++ documentation ++ dataDefinitions
  | .container =>
    bounded .optional [.when, .presence, .config, .status]
      ++ bounded .many [.ifFeature, .must, .typedef, .grouping, .action, .notification]
      ++ documentation ++ dataDefinitions
  | .leaf =>
    bounded .one [.type]
      ++ bounded .optional [.when, .units, .default, .config, .mandatory, .status]
      ++ bounded .many [.ifFeature, .must] ++ documentation
  | .leafList =>
    bounded .one [.type]
      ++ bounded .optional [.when, .units, .config, .minElements, .maxElements, .orderedBy,
          .status]
      ++ bounded .many [.ifFeature, .must, .default] ++ documentation
  | .list =>
    bounded .optional [.when, .key, .config, .minElements, .maxElements, .orderedBy, .status]
      ++ bounded .many [.ifFeature, .must, .unique, .typedef, .grouping, .action, .notification]
      ++ documentation ++ dataDefinitions
  | .choice =>
    bounded .optional [.when, .default, .config, .mandatory, .status]
      ++ bounded .many [.ifFeature, .case, .container, .leaf, .leafList, .list, .choice, .anydata,
          .anyxml]
      ++ documentation
  | .case =>
    bounded .optional [.when, .status] ++ bounded .many [.ifFeature] ++ documentation
      ++ dataDefinitions
  | .anydata | .anyxml =>
    bounded .optional [.when, .config, .mandatory, .status] ++ bounded .many [.ifFeature, .must]
      ++ documentation
  | .uses =>
    bounded .optional [.when, .status] ++ bounded .many [.ifFeature, .refine, .augment]
      ++ documentation
  | .refine =>
    bounded .optional [.presence, .config, .mandatory, .minElements, .maxElements]
      ++ bounded .many [.ifFeature, .must, .default] ++ documentation
  | .augment =>
    bounded .optional [.when, .status]
      ++ bounded .many [.ifFeature, .case, .action, .notification]
      ++ documentation ++ dataDefinitions
  | .rpc | .action =>
    bounded .optional [.input, .output, .status]
      ++ bounded .many [.ifFeature, .typedef, .grouping] ++ documentation
  | .input | .output => bounded .many [.must, .typedef, .grouping] ++ dataDefinitions
  | .notification =>
    bounded .optional [.status] ++ bounded .many [.ifFeature, .must, .typedef, .grouping]
      ++ documentation ++ dataDefinitions
  | .deviation => bounded .atLeastOne [.deviate] ++ documentation
  | .deviate =>
    bounded .optional [.units, .config, .mandatory, .minElements, .maxElements, .type]
      ++ bounded .many [.must, .unique, .default]
  | _ => []

/-- How often a statement may have a substatement; `none` if it may not have it at all. -/
def substatement? (parent child : Kind) : Option Cardinality :=
  parent.substatements.lookup child

/-- The substatements that a statement must have, in the order of `Kind.all`. -/
def requiredSubstatements (parent : Kind) : List Kind :=
  all.filter fun child => (parent.substatement? child).any (·.isRequired)

/-- No substatement is listed twice. -/
theorem nodup_substatements (k : Kind) : (k.substatements.map Prod.fst).Nodup := by
  cases k <;> decide

end Kind

/-! ## Sections -/

/-- A part of the body of a module; the parts come in this order. -/
inductive Section where
  | header
  | linkage
  | metadata
  | revision
  | body
  deriving Repr, DecidableEq, Inhabited

namespace Section

/-- The place of a section among the sections. -/
def rank : Section → Nat
  | .header => 0
  | .linkage => 1
  | .metadata => 2
  | .revision => 3
  | .body => 4

/-- The name of a section. -/
def text : Section → String
  | .header => "Header"
  | .linkage => "Linkage"
  | .metadata => "Meta"
  | .revision => "Revision"
  | .body => "Body"

instance : ToString Section := ⟨text⟩

end Section

/-- The section to which a statement belongs. -/
def Section.ofKind : Kind → Section
  | .yangVersion | .namespaceStmt | .prefixStmt | .belongsTo => .header
  | .importStmt | .includeStmt => .linkage
  | .organization | .contact | .description | .reference => .metadata
  | .revision => .revision
  | _ => .body

end YangSchema
