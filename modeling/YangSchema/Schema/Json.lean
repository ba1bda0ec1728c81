import YangSchema.Schema.Query
import YangSchema.Statement.Json
import YangSchema.Sha256

/-!
# The canonical text of a schema

The canonical text lists the modules of a schema with all their nodes as JSON, without blanks. Two
schemas have the same canonical text exactly if their modules agree in all that the text shows:
everything but where statements were written. The fingerprint of a schema is the SHA-256 digest of
its canonical text.
-/

namespace YangSchema

/-- The serialized form of a qualified name. -/
def QName.toJson (q : QName) : Json :=
  .ofFields ([("namespace", .ofText q.uri)]
    ++ Json.optionalField "revision" (q.revision.map fun r => .ofText r.text)
    ++ [("local_name", .ofText q.localName)])

/-- The serialized form of a binding. -/
def Binding.toJson : Binding → Json
  | .builtin kind => .ofFields [("Statement", .ofText kind.label)]
  | .extension module name =>
    .ofFields [("Extension", .ofFields [("module", module.toJson), ("name", .ofText name)])]
  | .uninterpreted => .ofText "Opaque"

/-- The serialized form of a condition. -/
def Condition.toJson (c : Condition) : Json :=
  .ofFields [("kind", .ofText c.kind.text), ("expression", .ofText c.expression),
    ("origin", c.origin.toJson)]

/-- The serialized form of an interval. -/
def Interval.toJson (i : Interval) : Json :=
  .ofFields [("min", .ofInt i.min), ("max", .ofInt i.max)]

/-- The serialized form of a pattern. -/
def PatternRestriction.toJson (p : PatternRestriction) : Json :=
  .ofFields [("expression", .ofText p.expression), ("inverted", .bool p.inverted)]

namespace EffectiveType

/-- A field with a list of texts that is left out if the list is empty. -/
def textsField (name : String) (texts : List String) : List (String × Json) :=
  Json.arrayField name (texts.map .ofText)

/-- A field with a text that is left out if it is absent. -/
def textField (name : String) (text : Option String) : List (String × Json) :=
  Json.optionalField name (text.map .ofText)

mutual

/-- The serialized form of a type. -/
def toJson : EffectiveType → Json
  | ⟨name, base, typedefs, ranges, lengths, digits, patterns, enums, bits, members, path, bases,
      requireInstance, units, default⟩ =>
    .ofFields ([("name", .ofText name), ("base", .ofText base.name)]
      ++ textsField "typedefs" typedefs
      ++ Json.arrayField "ranges" (ranges.map Interval.toJson)
      ++ Json.arrayField "lengths" (lengths.map Interval.toJson)
      ++ Json.optionalField "fraction_digits" (digits.map .ofNat)
      ++ Json.arrayField "patterns" (patterns.map PatternRestriction.toJson)
      ++ textsField "enums" enums
      ++ textsField "bits" bits
      ++ Json.arrayField "members" (listToJson members)
      ++ textField "path" path
      ++ textsField "bases" bases
      ++ Json.optionalField "require_instance" (requireInstance.map .bool)
      ++ textField "units" units
      ++ textField "default" default)

/-- The serialized forms of a list of types. -/
def listToJson : List EffectiveType → List Json
  | [] => []
  | t :: ts => toJson t :: listToJson ts

end

end EffectiveType

/-- The serialized form of a node. -/
def NodeData.toJson (row : Tree.Row NodeData) : Json :=
  let d := row.label
  .ofFields ([("id", .ofNat row.id), ("kind", d.binding.toJson), ("keyword", d.keyword.toJson)]
    ++ EffectiveType.textField "argument" d.argument
    ++ Json.optionalField "qname" (d.qname.map QName.toJson)
    ++ Json.arrayField "children" (row.children.map .ofNat)
    ++ [("augmenting", .bool d.augmenting), ("added_by_uses", .bool d.addedByUses)]
    ++ Json.arrayField "conditions" (d.conditions.map Condition.toJson)
    ++ Json.optionalField "effective_type" (d.type.map EffectiveType.toJson))

/-- The serialized form of a module. -/
def Module.toJson (m : Module) : Json :=
  .ofFields [("id", m.id.toJson), ("namespace", .ofText m.uri), ("prefix", .ofText m.ownPrefix),
    ("version", .ofText m.version.text), ("submodules", .array (m.submodules.map SourceId.toJson)),
    ("imports", .array (m.imports.map SourceId.toJson)),
    ("nodes", .array (m.nodes.map NodeData.toJson))]

namespace Schema

/-- The canonical text of a schema. -/
def canonicalText (s : Schema) : String := (Json.array (s.modules.map Module.toJson)).render

/-- The fingerprint of a schema. -/
def fingerprint (s : Schema) : String := Sha256.hexDigest s.canonicalText

end Schema

end YangSchema
