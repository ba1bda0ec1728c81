import YangSchema.Settings
import YangSchema.Settings.File
import YangSchema.Settings.Layer

/-!
# Loading settings

Settings come in layers: files in known places, of which any may be missing, then a file that is
asked for and must be there, then variables of the environment. What no layer sets has its default;
what is not a setting is ignored.
-/

namespace YangSchema

/-- Variables of an environment with their values. -/
abbrev Environment := List (String × String)

namespace SettingValue

/-- The value of a text that may stand for a switch or a number. -/
def ofText (text : String) : SettingValue :=
  let word := plainKey text
  if word = "true" then .bool true
  else if word = "false" then .bool false
  else
    match Text.signed? (Text.signedMin 64) (Text.signedMax 64) text, Binary64.ofString? text with
    | some n, _ => .integer n
    | none, some x => .real x
    | none, none => .text text

end SettingValue

namespace Settings

/-! ## The environment -/

/-- What the names of variables that hold settings begin with; case does not matter. -/
def variablePrefix : String := "yang_reactor__"

/-- A text with a dot in place of every two underscores. -/
def dotted : List Char → List Char
  | '_' :: '_' :: rest => '.' :: dotted rest
  | c :: rest => c :: dotted rest
  | [] => []

/-- The setting of a variable and its value, if it holds one. -/
def ofVariable? (v : String × String) : Option (String × SettingValue) :=
  let name := (SettingValue.plainKey v.1).toList
  if variablePrefix.toList.isPrefixOf name then
    let key := String.ofList (dotted (name.drop variablePrefix.length))
    some (key, .ofText v.2)
  else none

/-! ## Records -/

/-- The values of the settings of a section: by their names from a table, or in their order from a
list. -/
def sectionValues (name : String) (keys : List String) :
    Option SettingValue → Except SettingsFault (List (Option SettingValue))
  | none => .ok (keys.map fun _ => none)
  | some (.table es) => .ok (keys.map fun key => es.lookup key)
  | some (.list vs) => .ok ((List.range keys.length).map fun i => vs[i]?)
  | some _ => .error (.wrongValue name)

/-- The value of a setting, or its default if it is not set. -/
def value {α : Type} (setting : String) (read : SettingValue → Option α) (default : α) :
    Option SettingValue → Except SettingsFault α
  | none => .ok default
  | some v =>
    match read v with
    | some a => .ok a
    | none => .error (.wrongValue setting)

/-- The settings of builds. -/
def buildSettings (v : Option SettingValue) : Except SettingsFault BuildSettings := do
  let defaults : BuildSettings := {}
  let keys := ["parallel", "enforce_statement_order"]
  match ← sectionValues "reactor" keys v with
  | [parallel, enforceOrder] =>
    return ⟨← value "reactor.parallel" SettingValue.bool? defaults.parallel parallel,
      ← value "reactor.enforce_statement_order" SettingValue.bool? defaults.enforceOrder
        enforceOrder⟩
  | _ => return defaults

/-- The settings of repositories. -/
def repositorySettings (v : Option SettingValue) : Except SettingsFault RepositorySettings := do
  let defaults : RepositorySettings := {}
  let keys := ["path", "extension", "lenient_revisions"]
  match ← sectionValues "repository" keys v with
  | [path, extension, lenient] =>
    return ⟨← value "repository.path" SettingValue.text? defaults.path path,
      ← value "repository.extension" SettingValue.text? defaults.extension extension,
      ← value "repository.lenient_revisions" SettingValue.bool? defaults.lenientRevisions lenient⟩
  | _ => return defaults

/-- The settings that the layers, laid over each other, give. -/
def ofValue (v : SettingValue) : Except SettingsFault Settings := do
  return ⟨← buildSettings (v.get? "reactor"), ← repositorySettings (v.get? "repository")⟩

/-! ## Loading -/

/-- The names of the files of settings in the working directory, in the order of their layers. -/
def knownFiles : List String :=
  ["yang-reactor.toml", ".yang-reactor.toml", "config/yang-reactor.toml"]

/-- The name of the file that holds the settings of a user. -/
def userFileName : String := "yang-reactor.toml"

/-- The names on the way to it from the directory in which a user keeps the settings of programs. -/
def userDirectory : List String := ["yang-reactor"]

/-- The layer of the user, whose file counts only if something has exactly its name. -/
def userLayer (user : FileTree) : Except SettingsFault Layer :=
  if user.contains userFileName then optionalLayer user userFileName else .ok []

/-- Loads settings. `user` holds the files in the directory with the settings of the user;
`explicit` is the name of the file that is asked for. -/
def load (files user : FileTree) (explicit : Option String) (environment : Environment) :
    Except SettingsFault Settings := do
  let known ← knownFiles.mapM (optionalLayer files)
  let own ← userLayer user
  let asked ← explicit.toList.mapM (requiredLayer files)
  let layers := known ++ own :: asked ++ [environment.filterMap ofVariable?]
  ofValue (layers.foldl SettingValue.overlay (.table []))

/-- The path of the repository, seen from a working directory. -/
def repositoryPath (s : Settings) (workingDirectory : String) : String :=
  if s.repository.path.toList.head? = some '/' then s.repository.path
  else if workingDirectory.toList.getLast? = some '/' then workingDirectory ++ s.repository.path
  else workingDirectory ++ "/" ++ s.repository.path

end Settings

end YangSchema
