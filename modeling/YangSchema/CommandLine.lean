import YangSchema.CommandLine.Usage

/-!
# The command line

The program builds the schema of a directory and shows one aspect of it, which its command selects.
-/

namespace YangSchema

/-- What is to be shown of a schema. -/
inductive Command where
  /-- The modules with their submodules and imports. -/
  | modules
  /-- The data tree of a module. -/
  | tree (module : String) (revision : Option String)
  /-- How much has been built, and the fingerprint. -/
  | check
  /-- The link graph. -/
  | graph
  deriving Repr, DecidableEq

/-- What is asked for: a file of settings, a directory and a command. -/
structure Invocation where
  config : Option String
  directory : Option String
  command : Command
  deriving Repr, DecidableEq

/-- What a list of arguments asks for. -/
inductive Request where
  | run (invocation : Invocation)
  | help (text : String)
  deriving Repr, DecidableEq

namespace CommandLine

/-- The name of the program. -/
def programName : String := "yang-reactor"

/-- The commands with what they do. -/
def commands : List (String × String) := [
  ("modules", "List modules with namespace, submodules and imports"),
  ("tree", "Print the data tree of a module"),
  ("check", "Build everything and print the context fingerprint"),
  ("graph", "Print the module graph in DOT format"),
  ("help", "Print this message or the help of the given subcommand(s)")]

/-- The usage of the program. -/
def usage : Usage where
  name := programName
  about := "Link YANG modules and inspect the effective schema"
  flags := [
    ⟨'c', "config", "CONFIG", "Config file layered over the default locations", true⟩,
    ⟨'d', "dir", "DIR", "Source directory (overrides repository.path)", false⟩]
  operands := []
  subcommands := commands
  describes := true

/-- The usage of a command. -/
def usageOf (command : String) : Usage where
  name := programName ++ " " ++ command
  about := (commands.lookup command).getD ""
  flags :=
    if command = "tree" then
      [⟨'r', "revision", "REVISION", "Exact revision (defaults to the latest)", true⟩]
    else []
  operands :=
    if command = "tree" then [⟨"MODULE", "Module name", false⟩]
    else if command = "help" then [⟨"COMMAND", "Print help for the subcommand(s)", true⟩]
    else []
  subcommands := []
  describes := command ≠ "help"

/-- The command of a name with its arguments. -/
def commandOf? (name : String) (read : Arguments) : Option Command :=
  if name = "modules" then some .modules
  else if name = "tree" then
    read.operands.head?.map fun module => .tree module (read.values.lookup "revision")
  else if name = "check" then some .check
  else if name = "graph" then some .graph
  else none

/-- The description that the command `help` gives. -/
def helpOn? : List String → Option String
  | [] => some usage.help
  | [command] =>
    if (commands.lookup command).isSome then some (usageOf command).help else none
  | _ => none

/-- What arguments ask for; `none` if they are not as the usage says. -/
def parse? (args : List String) : Option Request :=
  match usage.scan args with
  | some .help => some (.help usage.help)
  | some (.subcommand read name rest) =>
    if name = "help" then (helpOn? rest).map .help
    else
      match (usageOf name).scan rest with
      | some .help => some (.help (usageOf name).help)
      | some (.complete own) => do
        let read ← read
        let command ← commandOf? name own
        return .run ⟨read.values.lookup "config", read.values.lookup "dir", command⟩
      | _ => none
  | _ => none

end CommandLine

end YangSchema
