import YangSchema.FileTree
import YangSchema.Json5.Reader
import YangSchema.Ron.Reader
import YangSchema.Settings.Ini
import YangSchema.Settings.Json
import YangSchema.Settings.Yaml
import YangSchema.Toml.Reader

/-!
# Files of settings

A file is named with or without its extension, which says in which format it is written. A file that
must be there and cannot be read is a fault, one that may be missing counts as empty then; what a
file holds is always read as its format demands.
-/

namespace YangSchema

/-- Why settings cannot be loaded. -/
inductive SettingsFault where
  | fileNotFound (name : String)
  | unknownFormat (path : String)
  | unreadable (path : String)
  | malformedFile (path : String)
  | wrongValue (setting : String)
  deriving Repr, DecidableEq

/-- The wording of a fault. -/
def SettingsFault.message : SettingsFault → String
  | .fileNotFound name => "configuration file \"" ++ name ++ "\" not found"
  | .unknownFormat path =>
    "configuration file \"" ++ path ++ "\" is not of a registered file format"
  | .unreadable _ => "stream did not contain valid UTF-8"
  | .malformedFile path => "malformed configuration file \"" ++ path ++ "\""
  | .wrongValue setting => "wrong kind of value for " ++ setting

namespace Settings

/-- A format in which settings are written. -/
inductive Format where
  | toml
  | json
  | yaml
  | ini
  | ron
  | json5
  deriving Repr, DecidableEq

/-- The formats with their extensions. -/
def formats : List (String × Format) := [
  ("toml", .toml), ("json", .json), ("yaml", .yaml), ("yml", .yaml), ("ini", .ini), ("ron", .ron),
  ("json5", .json5)]

/-- The keys with their values that a file gives. -/
abbrev Layer := List (String × SettingValue)

/-- The layer that a text in a format gives. -/
def layerOf? (format : Format) (text : String) : Option Layer :=
  match format with
  | .toml => Toml.parse? text
  | .json => SettingValue.ofJsonText? text
  | .yaml => SettingValue.ofYamlText? text
  | .ini => SettingValue.ofIniText? text
  | .ron => Ron.parse? text
  | .json5 => Json5.parse? text

/-- The format of the file to which a path leads. -/
def formatOf? (path : String) : Option Format :=
  (FileTree.extension? (FileTree.lastName path)).bind fun ext => formats.lookup ext

/-- A found file: its path, its format and its bytes. -/
abbrev Found := String × Format × List UInt8

/-- The files whose names are longer than a given one by the extension of a format. -/
def longerNamed (files : FileTree) (name : String) : List Found :=
  match FileTree.uptoLastName? name with
  | none => []
  | some stem => formats.filterMap fun f =>
    (files.read? (stem ++ "." ++ f.1)).map fun bytes => (stem ++ "." ++ f.1, f.2, bytes)

/-- The file of a name: the one of exactly that name, or else one whose name is longer by the
extension of a format. -/
def findFile (files : FileTree) (name : String) : Except SettingsFault Found :=
  match files.read? name with
  | some bytes =>
    match formatOf? name with
    | some format => .ok (name, format, bytes)
    | none => .error (.unknownFormat (FileTree.join files.workingDirectory [name]))
  | none =>
    match longerNamed files name with
    | found :: _ => .ok found
    | [] => .error (.fileNotFound name)

/-- The text of the file of a name, with its path and its format. -/
def findText (files : FileTree) (name : String) :
    Except SettingsFault (String × Format × String) := do
  let (path, format, bytes) ← findFile files name
  match Text.Utf8.decode? bytes with
  | some text => return (path, format, text)
  | none => .error (.unreadable path)

/-- The layer of a text in a format. -/
def readText (file : String × Format × String) : Except SettingsFault Layer :=
  match layerOf? file.2.1 file.2.2 with
  | some layer => .ok layer
  | none => .error (.malformedFile file.1)

/-- The layer of a file that must be there. -/
def requiredLayer (files : FileTree) (name : String) : Except SettingsFault Layer := do
  readText (← findText files name)

/-- The layer of a file that may be missing. -/
def optionalLayer (files : FileTree) (name : String) : Except SettingsFault Layer :=
  match findText files name with
  | .ok file => readText file
  | .error _ => .ok []

end Settings

end YangSchema
