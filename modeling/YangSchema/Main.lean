import YangSchema.CommandLine.Run

/-!
# The program

The program takes the names of the files that it may see from the standard input, one a line, and
its settings from files and from the environment. It writes what `CommandLine.run` answers.
-/

namespace YangSchema

namespace Program

/-- The variables of the environment that hold settings. -/
def variableNames : List String := [
  "YANG_REACTOR__REACTOR__PARALLEL", "YANG_REACTOR__REACTOR__ENFORCE_STATEMENT_ORDER",
  "YANG_REACTOR__REPOSITORY__PATH", "YANG_REACTOR__REPOSITORY__EXTENSION",
  "YANG_REACTOR__REPOSITORY__LENIENT_REVISIONS"]

/-- The environment, as far as it holds settings. -/
def environment : IO Environment :=
  variableNames.filterMapM fun name => do
    return (← IO.getEnv name).map fun value => (name, value)

/-- The bytes of a file, if it can be read. -/
def readFile? (path : String) : IO (Option (List UInt8)) := do
  try
    return some (← IO.FS.readBinFile path).toList
  catch _ =>
    return none

/-- The directory in which a user keeps the settings of programs. -/
def settingsDirectory : IO String := do
  let home := FileTree.join ((← IO.getEnv "HOME").getD "") [".config"]
  match ← IO.getEnv "XDG_CONFIG_HOME" with
  | some directory => return if directory.startsWith "/" then directory else home
  | none => return home

/-- The files of the user that can hold settings. -/
def userFiles : IO FileTree := do
  let directory := FileTree.join (← settingsDirectory) Settings.userDirectory
  let names := Settings.userFileName
    :: Settings.formats.map fun f => Settings.userFileName ++ "." ++ f.1
  let found ← names.filterMapM fun name => do
    return (← readFile? (FileTree.join directory [name])).map fun bytes => (name, bytes)
  return .ofFiles directory found

/-- The lines of a stream up to its end. -/
partial def linesOf (stream : IO.FS.Stream) : IO (List String) := do
  let line ← stream.getLine
  if line.isEmpty then return []
  return String.ofList (line.toList.takeWhile (· != '\n')) :: (← linesOf stream)

/-- The files of the given names, as far as they can be read. -/
def readFiles (names : List String) : IO (List (String × List UInt8)) :=
  names.filterMapM fun name => do
    return (← readFile? name).map fun bytes => (name, bytes)

/-- What the program sees of the world. -/
def world : IO World := do
  let names ← linesOf (← IO.getStdin)
  let files ← readFiles (Settings.knownFiles ++ names)
  return ⟨.ofFiles (← IO.currentDir).toString files, ← userFiles, ← environment⟩

end Program

end YangSchema

/-- Runs the program with its arguments. -/
def main (args : List String) : IO UInt32 := do
  let outcome := YangSchema.CommandLine.run (← YangSchema.Program.world) args
  (← IO.getStdout).putStr outcome.output
  (← IO.getStderr).putStr outcome.errors
  return outcome.code.toUInt32
