import YangSchema.Version
import YangSchema.Text.Split

/-!
# Statement kinds

The closed set of statements that the language defines, with their keywords. A kind is known by its
keyword from the version of the language that introduced it.

`Kind.all` lists the kinds by their keywords in alphabetical order; counts and grammar faults are
reported in this order.
-/

namespace YangSchema

/-- A statement that the language defines. -/
inductive Kind where
  | action | anydata | anyxml | argument | augment | base | belongsTo | bit | case | choice
  | config | contact | container | default | description | deviate | deviation | enum | errorAppTag
  | errorMessage | extension | feature | fractionDigits | grouping | identity | ifFeature
  | importStmt | includeStmt | input | key | leaf | leafList | length | list | mandatory
  | maxElements | minElements | modifier | module | must | namespaceStmt | notification | orderedBy
  | organization | output | path | pattern | position | prefixStmt | presence | range | reference
  | refine | requireInstance | revision | revisionDate | rpc | status | submodule | type | typedef
  | unique | units | uses | value | when | yangVersion | yinElement
  deriving Repr, DecidableEq, Inhabited

namespace Kind

/-- All kinds, by their keywords in alphabetical order. -/
def all : List Kind := [
  .action, .anydata, .anyxml, .argument, .augment, .base, .belongsTo, .bit, .case, .choice,
  .config, .contact, .container, .default, .description, .deviate, .deviation, .enum, .errorAppTag,
  .errorMessage, .extension, .feature, .fractionDigits, .grouping, .identity, .ifFeature,
  .importStmt, .includeStmt, .input, .key, .leaf, .leafList, .length, .list, .mandatory,
  .maxElements, .minElements, .modifier, .module, .must, .namespaceStmt, .notification, .orderedBy,
  .organization, .output, .path, .pattern, .position, .prefixStmt, .presence, .range, .reference,
  .refine, .requireInstance, .revision, .revisionDate, .rpc, .status, .submodule, .type, .typedef,
  .unique, .units, .uses, .value, .when, .yangVersion, .yinElement]

/-- The keyword of a kind. -/
def keyword : Kind → String
  | .action => "action"
  | .anydata => "anydata"
  | .anyxml => "anyxml"
  | .argument => "argument"
  | .augment => "augment"
  | .base => "base"
  | .belongsTo => "belongs-to"
  | .bit => "bit"
  | .case => "case"
  | .choice => "choice"
  | .config => "config"
  | .contact => "contact"
  | .container => "container"
  | .default => "default"
  | .description => "description"
  | .deviate => "deviate"
  | .deviation => "deviation"
  | .enum => "enum"
  | .errorAppTag => "error-app-tag"
  | .errorMessage => "error-message"
  | .extension => "extension"
  | .feature => "feature"
  | .fractionDigits => "fraction-digits"
  | .grouping => "grouping"
  | .identity => "identity"
  | .ifFeature => "if-feature"
  | .importStmt => "import"
  | .includeStmt => "include"
  | .input => "input"
  | .key => "key"
  | .leaf => "leaf"
  | .leafList => "leaf-list"
  | .length => "length"
  | .list => "list"
  | .mandatory => "mandatory"
  | .maxElements => "max-elements"
  | .minElements => "min-elements"
  | .modifier => "modifier"
  | .module => "module"
  | .must => "must"
  | .namespaceStmt => "namespace"
  | .notification => "notification"
  | .orderedBy => "ordered-by"
  | .organization => "organization"
  | .output => "output"
  | .path => "path"
  | .pattern => "pattern"
  | .position => "position"
  | .prefixStmt => "prefix"
  | .presence => "presence"
  | .range => "range"
  | .reference => "reference"
  | .refine => "refine"
  | .requireInstance => "require-instance"
  | .revision => "revision"
  | .revisionDate => "revision-date"
  | .rpc => "rpc"
  | .status => "status"
  | .submodule => "submodule"
  | .type => "type"
  | .typedef => "typedef"
  | .unique => "unique"
  | .units => "units"
  | .uses => "uses"
  | .value => "value"
  | .when => "when"
  | .yangVersion => "yang-version"
  | .yinElement => "yin-element"

instance : ToString Kind := ⟨keyword⟩

/-- The keyword with a capital at the start of each of its words and without the hyphens. -/
def label (k : Kind) : String :=
  String.join ((Text.splitAll '-' k.keyword).map String.capitalize)

/-- The version of the language that introduced a kind. -/
def since : Kind → Version
  | .action | .anydata | .modifier => .v1_1
  | _ => .v1

/-- The kind that a keyword stands for in a version of the language. -/
def ofKeyword? (version : Version) (keyword : String) : Option Kind :=
  (all.find? fun k => k.keyword == keyword).filter fun k => version.includes k.since

/-- The place of a kind in `Kind.all`. -/
def rank (k : Kind) : Nat := all.idxOf k

theorem mem_all (k : Kind) : k ∈ all := by cases k <;> decide

theorem nodup_keyword : (all.map keyword).Nodup := by decide +kernel

end Kind

end YangSchema
