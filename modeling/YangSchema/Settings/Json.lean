import YangSchema.Json.Number
import YangSchema.Json.Reader
import YangSchema.Settings.Value

/-!
# Settings in JSON

A settings file in JSON holds one object. Its values nest to a bounded depth, all its strings are
texts and all its numbers are in range, also where nothing reads them. Of several fields with the
same key only the last counts.
-/

namespace YangSchema

namespace SettingValue

/-- How many objects and arrays may open inside each other. -/
def jsonDepth : Nat := 127

/-- The value of a number. -/
def ofNumber : Json.Number → SettingValue
  | .integer n => .integer n
  | .real x => .real x

mutual

/-- The value that a JSON value gives in which at most `depth` others may open. -/
def ofJson? (depth : Nat) : Json → Option SettingValue
  | .null => some .absent
  | .bool b => some (.bool b)
  | .number written => (Json.Number.ofWritten? written).map ofNumber
  | .string written => (Json.unescape? written).map fun cs => .text (String.ofList cs)
  | .array items => if depth = 0 then none else (ofItems? (depth - 1) items).map .list
  | .object fields => if depth = 0 then none else (ofFields? (depth - 1) fields).map .table

/-- The values of the items of an array. -/
def ofItems? (depth : Nat) : List Json → Option (List SettingValue)
  | [] => some []
  | j :: js => do return (← ofJson? depth j) :: (← ofItems? depth js)

/-- The values of the fields of an object. -/
def ofFields? (depth : Nat) : List (List Char × Json) → Option (List (String × SettingValue))
  | [] => some []
  | (key, j) :: fields => do
    let key ← Json.unescape? key
    let v ← ofJson? depth j
    return consEntry (String.ofList key) v (← ofFields? depth fields)

end

/-- The keys with their values that a text in JSON gives. -/
def ofJsonText? (text : String) : Option (List (String × SettingValue)) := do
  match ← ofJson? jsonDepth (← Json.parse? text) with
  | .table es => return es
  | _ => none

end SettingValue

end YangSchema
