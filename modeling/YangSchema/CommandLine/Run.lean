import YangSchema.CommandLine.Report
import YangSchema.Repository.Directory
import YangSchema.Settings.Load

/-!
# Running a command

A run loads the settings, reads the sources of a directory, builds their schema and reports on it.
Its outcome is an exit code with what is written to the two output streams; a failure is reported
with what was being done.
-/

namespace YangSchema

/-- What a run sees of the world. -/
structure World where
  files : FileTree
  /-- The files in the directory with the settings of the user. -/
  userFiles : FileTree
  environment : Environment

/-- What a run leaves behind. -/
structure RunOutcome where
  code : Nat
  output : String
  errors : String
  deriving Repr, DecidableEq

/-- Why a run fails. -/
inductive RunFault where
  | settings (fault : SettingsFault)
  | index (directory : String) (error : Error)
  | build (error : Error)
  | revision (error : Error)
  | moduleNotFound (name : String)

namespace RunFault

/-- The wording of an error, with that of its cause behind it if it has one. -/
def chain : Error → String
  | .unreadableText => Error.unreadableText.message ++ ": stream did not contain valid UTF-8"
  | e => e.message

/-- The wording of a fault. -/
def message : RunFault → String
  | .settings fault => "Failed to load configuration: " ++ fault.message
  | .index directory error => "Failed to index " ++ directory ++ ": " ++ chain error
  | .build error => chain error
  | .revision error => chain error
  | .moduleNotFound name => "Module '" ++ name ++ "' not found"

end RunFault

namespace CommandLine

/-- Turns the error of a result into a fault. -/
def blame {α : Type} (fault : Error → RunFault) : Result α → Except RunFault α
  | .ok a => .ok a
  | .error e => .error (fault e)

/-- Loads the settings of a run. -/
def loadSettings (w : World) (i : Invocation) : Except RunFault Settings :=
  match Settings.load w.files w.userFiles i.config w.environment with
  | .ok s => .ok s
  | .error fault => .error (.settings fault)

/-- Builds the schema of a run. -/
def buildSchema (w : World) (i : Invocation) : Except RunFault Schema := do
  let settings ← loadSettings w i
  let directory := i.directory.getD (settings.repositoryPath w.files.workingDirectory)
  let r ← blame (.index directory) (Repository.ofFileTree settings.repository w.files directory)
  blame .build (r.build settings.build)

/-- Reads the revision of a command. -/
def revisionOf : Option String → Except RunFault (Option Revision)
  | none => .ok none
  | some text =>
    match Revision.ofString? text with
    | some r => .ok (some r)
    | none => .error (.revision (.date text))

/-- What a command shows of a schema. -/
def report (s : Schema) : Command → Except RunFault String
  | .modules => .ok (Report.ofLines (Report.modules s))
  | .tree name revision => do
    match s.module? name (← revisionOf revision) with
    | some m => return Report.ofLines (Report.tree m)
    | none => .error (.moduleNotFound name)
  | .check => .ok (Report.ofLines (Report.check s))
  | .graph => .ok s.graph.toDot

/-- Does what is asked for. -/
def perform (w : World) (i : Invocation) : Except RunFault String := do
  report (← buildSchema w i) i.command

/-- The outcome of a run; arguments that are not as the usage says end it with code 2. -/
def run (w : World) (args : List String) : RunOutcome :=
  match parse? args with
  | none => ⟨2, "", usage.help⟩
  | some (.help text) => ⟨0, text, ""⟩
  | some (.run i) =>
    match perform w i with
    | .ok output => ⟨0, output, ""⟩
    | .error fault => ⟨1, "", "Error: " ++ fault.message ++ "\n"⟩

end CommandLine

end YangSchema
