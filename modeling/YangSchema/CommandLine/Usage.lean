/-!
# Usage of commands

The usage of a command says which flags, operands and subcommands it takes. `Usage.scan` reads
arguments by it and `Usage.help` describes it.

* Every flag takes a value: what is behind `=` in the same argument, or what directly follows a
  short name, or else the next argument, which must not look like a flag itself. A flag is given at
  most once.
* Behind the argument `--` all arguments are operands.
* The name of a subcommand ends the arguments of the command. Whether the value right before it is
  refused is found out only behind the arguments of the subcommand.
* `-h` and `--help` ask for help, whatever comes behind them.
-/

namespace YangSchema

/-- A flag with its names and the name of its value. -/
structure Flag where
  short : Char
  long : String
  value : String
  about : String
  /-- Whether the value may be empty. -/
  allowsEmpty : Bool
  deriving Repr, DecidableEq

/-- An operand with its name. -/
structure Operand where
  name : String
  about : String
  /-- Whether there can be any number of them, and none. -/
  repeated : Bool
  deriving Repr, DecidableEq

/-- What a command is called, what it does and what it takes; the names of subcommands come with
what they mean. -/
structure Usage where
  name : String
  about : String
  flags : List Flag
  operands : List Operand
  subcommands : List (String × String)
  /-- Whether it can be asked for help. -/
  describes : Bool
  deriving Repr, DecidableEq

/-- The arguments that have been read: the values of flags by their long names, and operands. -/
structure Arguments where
  values : List (String × String)
  operands : List String
  deriving Repr, DecidableEq

/-- What a list of arguments amounts to. -/
inductive Scan where
  | complete (read : Arguments)
  /-- The arguments go on behind the name of a subcommand; `read` is absent if the last value before
  it is refused. -/
  | subcommand (read : Option Arguments) (name : String) (rest : List String)
  | help
  deriving Repr, DecidableEq

namespace Usage

/-! ## Reading arguments -/

/-- What a single argument is. -/
inductive Word where
  /-- The argument `--`. -/
  | separator
  | help
  | flag (flag : Flag) (value : Option String)
  | operand
  | unknown
  deriving Repr, DecidableEq

/-- Splits off what is behind the first `=`. -/
def splitValue : List Char → List Char × Option (List Char)
  | [] => ([], none)
  | '=' :: cs => ([], some cs)
  | c :: cs => let (name, value) := splitValue cs; (c :: name, value)

/-- What an argument is that begins with two dashes. -/
def longWord (u : Usage) (cs : List Char) : Word :=
  let (name, value) := splitValue cs
  let name := String.ofList name
  if name = "help" then if value.isNone then .help else .unknown
  else
    match u.flags.find? fun f => f.long = name with
    | some f => .flag f (value.map String.ofList)
    | none => .unknown

/-- What an argument is that begins with one dash and a letter. -/
def shortWord (u : Usage) (letter : Char) (cs : List Char) : Word :=
  if letter = 'h' then .help
  else
    match u.flags.find? fun f => f.short = letter with
    | none => .unknown
    | some f =>
      match cs with
      | [] => .flag f none
      | '=' :: value => .flag f (some (String.ofList value))
      | value => .flag f (some (String.ofList value))

/-- What an argument is. -/
def wordOf (u : Usage) (arg : String) : Word :=
  match arg.toList with
  | ['-', '-'] => .separator
  | '-' :: '-' :: cs => u.longWord cs
  | '-' :: letter :: cs => u.shortWord letter cs
  | _ => .operand

/-- Whether an argument looks like a flag. -/
def looksLikeFlag (arg : String) : Bool :=
  match arg.toList with
  | '-' :: _ :: _ => true
  | _ => false

/-- Sets the value of a flag. -/
def setFlag (read : Arguments) (f : Flag) (value : String) : Option Arguments :=
  if (read.values.lookup f.long).isSome ∨ (value = "" ∧ !f.allowsEmpty) then none
  else some ⟨read.values ++ [(f.long, value)], read.operands⟩

/-- Adds an operand. -/
def addOperand (u : Usage) (read : Arguments) (arg : String) : Option Arguments :=
  if read.operands.length < u.operands.length then
    some ⟨read.values, read.operands ++ [arg]⟩
  else none

/-- Reads arguments that are all operands. -/
def scanOperands (u : Usage) (read : Arguments) (args : List String) : Option Scan :=
  (args.foldlM u.addOperand read).map .complete

/-- Reads arguments behind those that have been read, which are absent if the last value is
refused. -/
def scanFrom (u : Usage) (read : Option Arguments) : List String → Option Scan
  | [] => read.map .complete
  | arg :: rest =>
    if (u.subcommands.lookup arg).isSome then some (.subcommand read arg rest)
    else
      match read, u.wordOf arg with
      | none, _ => none
      | _, .unknown => none
      | some _, .help => some .help
      | some read, .separator => u.scanOperands read rest
      | some read, .operand => (u.addOperand read arg).bind fun read => u.scanFrom (some read) rest
      | some read, .flag f (some value) =>
        (setFlag read f value).bind fun read => u.scanFrom (some read) rest
      | some read, .flag f none =>
        match rest with
        | [] => none
        | value :: rest =>
          if looksLikeFlag value then none else u.scanFrom (setFlag read f value) rest

/-- Reads arguments; `none` if they are not as the usage says. All operands must be there. -/
def scan (u : Usage) (args : List String) : Option Scan :=
  match u.scanFrom (some ⟨[], []⟩) args with
  | some (.complete read) =>
    if read.operands.length = u.operands.length then some (.complete read) else none
  | s => s

/-! ## Describing -/

/-- A text made longer by blanks. -/
def padTo (width : Nat) (text : String) : String :=
  text ++ String.ofList (List.replicate (width - text.length) ' ')

/-- Lines of two columns under a heading. -/
def table (heading : String) (rows : List (String × String)) : String :=
  let width := (rows.map (·.1.length)).foldl max 0
  "\n" ++ heading ++ ":\n"
    ++ String.join (rows.map fun r => "  " ++ padTo width r.1 ++ "  " ++ r.2 ++ "\n")

/-- The row of a flag. -/
def flagRow (f : Flag) : String × String :=
  ("-" ++ f.short.toString ++ ", --" ++ f.long ++ " <" ++ f.value ++ ">", f.about)

/-- The row of an operand. -/
def operandRow (o : Operand) : String × String :=
  (if o.repeated then "[" ++ o.name ++ "]..." else "<" ++ o.name ++ ">", o.about)

/-- The description of a command. -/
def help (u : Usage) : String :=
  let operands := u.operands.map operandRow
  let flags := u.flags.map flagRow ++ if u.describes then [("-h, --help", "Print help")] else []
  u.about ++ "\n\nUsage: " ++ u.name
    ++ (if u.flags.isEmpty then "" else " [OPTIONS]")
    ++ String.join (operands.map fun o => " " ++ o.1)
    ++ (if u.subcommands.isEmpty then "" else " <COMMAND>") ++ "\n"
    ++ (if u.subcommands.isEmpty then "" else table "Commands" u.subcommands)
    ++ (if operands.isEmpty then "" else table "Arguments" operands)
    ++ (if flags.isEmpty then "" else table "Options" flags)

end Usage

end YangSchema
