import YangSchema.Statement
import YangSchema.SourceId
import YangSchema.Json.Reader

/-!
# Statements and identifiers as JSON

The serialized form of a statement tree is an object with the fields `keyword`, `argument`,
`children` and `location`; an absent prefix or argument and an empty list of substatements are left
out. The serialized form of an identifier has the fields `name` and `revision`.

Reading takes records as `Json.record?` does. A tree of statements may be nested only so far:
`Statement.ofJson?` counts down how many more objects and arrays may open inside each other.
-/

namespace YangSchema

/-- The serialized form of a location. -/
def Location.toJson (l : Location) : Json :=
  .ofFields [("origin", .ofText l.origin), ("line", .ofNat l.line), ("column", .ofNat l.column)]

/-- Reads a location; lines and columns are words of 32 bits. -/
def Location.ofJson? (j : Json) : Option Location :=
  match j.record? ["origin", "line", "column"] with
  | some [some origin, some line, some column] => do
    let origin ← origin.text?
    let line ← line.natUpTo? (Text.wordMax 32)
    let column ← column.natUpTo? (Text.wordMax 32)
    return ⟨origin, line, column⟩
  | _ => none

/-- The serialized form of a keyword. -/
def Keyword.toJson (k : Keyword) : Json :=
  .ofFields (Json.optionalField "prefix" (k.qualifier.map .ofText)
    ++ [("identifier", .ofText k.identifier)])

/-- Reads a keyword. -/
def Keyword.ofJson? (j : Json) : Option Keyword :=
  match j.record? ["prefix", "identifier"] with
  | some [qualifier, some identifier] => do
    let qualifier ← (qualifier.getD .null).optionalText?
    let identifier ← identifier.text?
    return ⟨qualifier, identifier⟩
  | _ => none

namespace Statement

mutual

/-- The serialized form of a statement. -/
def toJson : Statement → Json
  | ⟨head, children⟩ =>
    .ofFields ([("keyword", head.keyword.toJson)]
      ++ Json.optionalField "argument" (head.argument.map .ofText)
      ++ Json.arrayField "children" (listToJson children)
      ++ [("location", head.location.toJson)])

/-- The serialized forms of a list of statements. -/
def listToJson : List Statement → List Json
  | [] => []
  | s :: ss => toJson s :: listToJson ss

end

/-- The items of an array, which may be missing. -/
def childItems? : Option Json → Option (List Json)
  | none => some []
  | some (.array items) => some items
  | some _ => none

/-- Reads a statement in which at most `depth` objects and arrays open inside each other. -/
def ofJson? : (depth : Nat) → Json → Option Statement
  | depth + 2, j =>
    match j.record? ["keyword", "argument", "children", "location"] with
    | some [some keyword, argument, children, some location] => do
      let keyword ← Keyword.ofJson? keyword
      let argument ← (argument.getD .null).optionalText?
      let children ← (← childItems? children).mapM (ofJson? depth)
      let location ← Location.ofJson? location
      return ⟨⟨keyword, argument, location⟩, children⟩
    | _ => none
  | _, _ => none

/-- How many objects and arrays may open inside each other in a serialized text. -/
def nestingLimit : Nat := 127

/-- Reads the serialized text of a statement. -/
def ofJsonText? (text : String) : Option Statement :=
  (Json.parse? text).bind (ofJson? nestingLimit)

end Statement

namespace SourceId

/-- The serialized form of an identifier. -/
def toJson (id : SourceId) : Json :=
  .ofFields ([("name", .ofText id.name)]
    ++ Json.optionalField "revision" (id.revision.map fun r => .ofText r.text))

/-- Reads an optional revision. -/
def revisionOfJson? (j : Json) : Option (Option Revision) :=
  match j.optionalText? with
  | none => none
  | some none => some none
  | some (some text) => (Revision.ofString? text).map some

/-- Reads an identifier. -/
def ofJson? (j : Json) : Option SourceId :=
  match j.record? ["name", "revision"] with
  | some [some name, revision] => do
    let name ← name.text?
    let revision ← revisionOfJson? (revision.getD .null)
    return ⟨name, revision⟩
  | _ => none

/-- Reads the serialized text of an identifier. -/
def ofJsonText? (text : String) : Option SourceId := (Json.parse? text).bind ofJson?

end SourceId

end YangSchema
