import YangSchema.Settings.Value
import YangSchema.Yaml.Node

/-!
# Settings in YAML

A settings file in YAML holds one document, a mapping, or none. The keys of all its mappings are
texts or integers, no two the same, and its real numbers are written in digits.
-/

namespace YangSchema

namespace SettingValue

/-- A key of a mapping. -/
def keyOfNode? : Yaml.Node → Option String
  | .text s => some s
  | .integer n => some (toString n)
  | _ => none

/-- Whether two keys are the same. -/
def isSameKey : Yaml.Node → Yaml.Node → Bool
  | .text s, .text t => s == t
  | .integer n, .integer m => n == m
  | _, _ => false

mutual

/-- The value that a node gives. -/
def ofNode? : Yaml.Node → Option SettingValue
  | .null => some .absent
  | .bool b => some (.bool b)
  | .integer n => some (.integer n)
  | .real written => (Binary64.ofString? written).map .real
  | .text s => some (.text s)
  | .sequence items => (ofNodes? items).map .list
  | .mapping entries => (ofEntries? entries).map .table
  | .invalid => some .absent

/-- The values of the items of a sequence. -/
def ofNodes? : List Yaml.Node → Option (List SettingValue)
  | [] => some []
  | n :: ns => do return (← ofNode? n) :: (← ofNodes? ns)

/-- The values of the entries of a mapping. -/
def ofEntries? : List (Yaml.Node × Yaml.Node) → Option (List (String × SettingValue))
  | [] => some []
  | (key, n) :: entries => do
    if entries.any fun e => isSameKey key e.1 then none
    return consEntry (← keyOfNode? key) (← ofNode? n) (← ofEntries? entries)

end

/-- The keys with their values that a text in YAML gives. -/
def ofYamlText? (text : String) : Option (List (String × SettingValue)) := do
  match ← Yaml.Node.ofText? text with
  | [] => return []
  | [n] =>
    match ← ofNode? n with
    | .table es => return es
    | _ => none
  | _ => none

end SettingValue

end YangSchema
