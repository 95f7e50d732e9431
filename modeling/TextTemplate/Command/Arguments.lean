import TextTemplate.Command.Check
import TextTemplate.Text.Split

/-!
# Command lines

What the arguments of the command ask for. There is one subcommand, `check`; the switches for quiet
and verbose output may stand before and after it. Arguments are read from left to right and the
first that does not fit is reported; whether switches exclude each other is looked at afterwards,
for the part after the subcommand first.
-/
namespace TextTemplate

/-- What is wrong with the arguments. -/
inductive ArgumentError where
  /-- Nothing has been given. -/
  | nothing
  | noSubcommand
  | unknownSubcommand (name : String)
  | unknownArgument (name : String)
  | missingValue (option : String)
  | unexpectedValue (value option : String)
  | repeated (option : String)
  | conflict (option other : String)
deriving DecidableEq, Repr

namespace ArgumentError

/-- The message, if there is one besides the usage. -/
def message? : ArgumentError → Option String
  | nothing => none
  | noSubcommand => some "'t4' requires a subcommand but one was not provided"
  | unknownSubcommand name => some ("unrecognized subcommand '" ++ name ++ "'")
  | unknownArgument name => some ("unexpected argument '" ++ name ++ "' found")
  | missingValue option =>
    some ("a value is required for '" ++ option ++ "' but none was supplied")
  | unexpectedValue value option =>
    some ("unexpected value '" ++ value ++ "' for '" ++ option ++
      "' found; no more were expected")
  | repeated option => some ("the argument '" ++ option ++ "' cannot be used multiple times")
  | conflict option other =>
    some ("the argument '" ++ option ++ "' cannot be used with '" ++ other ++ "'")

end ArgumentError

/-- A switch, which has no value. -/
inductive Switch where
  | quiet
  | verbose
  | hidden
  | noIgnore
  | version
  | help
deriving DecidableEq, Repr

namespace Switch

/-- The switch as messages spell it. -/
def display : Switch → String
  | quiet => "--quiet"
  | verbose => "--verbose..."
  | hidden => "--hidden"
  | noIgnore => "--no-ignore"
  | version => "--version"
  | help => "--help"

/-- The switch of a long name. -/
def ofLong? : String → Option Switch
  | "quiet" => some quiet
  | "verbose" => some verbose
  | "hidden" => some hidden
  | "no-ignore" => some noIgnore
  | "version" => some version
  | "help" => some help
  | _ => none

/-- The switch of a letter. -/
def ofShort? : Char → Option Switch
  | 'q' => some quiet
  | 'v' => some verbose
  | 'V' => some version
  | 'h' => some help
  | _ => none

/-- The switch may be given before the subcommand. -/
def isTop : Switch → Bool
  | quiet | verbose | version | help => true
  | _ => false

/-- The switch may be given after the subcommand. -/
def isCheck : Switch → Bool
  | version => false
  | _ => true

end Switch

/-- An option, which has a value. -/
inductive ValueOption where
  | select
  | ignore
deriving DecidableEq, Repr

namespace ValueOption

/-- The option as messages spell it. -/
def display : ValueOption → String
  | select => "--select <SELECT>"
  | ignore => "--ignore <IGNORE>"

/-- The option of a long name. -/
def ofLong? : String → Option ValueOption
  | "select" => some select
  | "ignore" => some ignore
  | _ => none

end ValueOption

/-- What has been given on one side of the subcommand. -/
structure Given where
  /-- The switches in the order in which they were last given. -/
  switches : List Switch
  select : List String
  ignore : List String
  paths : List String
deriving DecidableEq, Repr

namespace Given

/-- Nothing. -/
def empty : Given :=
  ⟨[], [], [], []⟩

/-- The switch, which only `--verbose` may be more than once. -/
def addSwitch (given : Given) (switch : Switch) : Except ArgumentError Given :=
  if given.switches.contains switch && switch ≠ .verbose then .error (.repeated switch.display)
  else .ok { given with switches := given.switches.filter (· ≠ switch) ++ [switch] }

/-- The values of the option, which a comma separates. -/
def addValue (given : Given) (option : ValueOption) (value : String) : Given :=
  let values := (splitAtChar ',' value.toList).map String.ofList
  match option with
  | .select => { given with select := given.select ++ values }
  | .ignore => { given with ignore := given.ignore ++ values }

/-- Switches that exclude each other have not both been given. -/
def validate (given : Given) : Except ArgumentError Unit :=
  match given.switches.filter fun switch => switch = .quiet || switch = .verbose with
  | first :: second :: _ => .error (.conflict first.display second.display)
  | _ => .ok ()

end Given

/-- The arguments ask for the version or the usage, and the others do not matter. -/
inductive Shortcut where
  | version
  | help
deriving DecidableEq, Repr

/-- Why reading arguments stops early. -/
inductive Stop where
  | error (error : ArgumentError)
  | shortcut (shortcut : Shortcut)
deriving DecidableEq, Repr

/-- The argument spelled as a long option: its name and the value after an equals sign. -/
def longName? (argument : String) : Option (String × Option String) :=
  match argument.toList with
  | '-' :: '-' :: name =>
    let key := name.takeWhile (· ≠ '=')
    let value :=
      if key.length < name.length then some (String.ofList (name.drop (key.length + 1))) else none
    some (String.ofList key, value)
  | _ => none

/-- The letters of an argument that is a dash and letters. -/
def shortNames? (argument : String) : Option (List Char) :=
  match argument.toList with
  | '-' :: c :: cs => if c = '-' then none else some (c :: cs)
  | _ => none

/-- The argument cannot be the value of an option or a path, since it starts with a dash. -/
def looksLikeOption (argument : String) : Bool :=
  (longName? argument).isSome || (shortNames? argument).isSome

/-- The given switches with one more, unless it is a shortcut or not allowed here. -/
def Given.use (given : Given) (allowed : Switch → Bool) (spelled : String) :
    Option Switch → Except Stop Given
  | none => .error (.error (.unknownArgument spelled))
  | some switch =>
    if !allowed switch then .error (.error (.unknownArgument spelled))
    else
      match switch with
      | .version => .error (.shortcut .version)
      | .help => .error (.shortcut .help)
      | _ => (given.addSwitch switch).mapError .error

/-- The given switches with those of the letters. -/
def Given.useLetters (allowed : Switch → Bool) : Given → List Char → Except Stop Given
  | given, [] => .ok given
  | given, c :: cs => do
    let given ← given.use allowed (String.ofList ['-', c]) (Switch.ofShort? c)
    useLetters allowed given cs

/-- The given switches with a long one. -/
def Given.useLong (given : Given) (allowed : Switch → Bool) (name : String)
    (value : Option String) : Except Stop Given :=
  let spelled := "--" ++ name
  match value, (Switch.ofLong? name).filter allowed with
  | some value, some switch => .error (.error (.unexpectedValue value switch.display))
  | _, switch => given.use allowed spelled switch

/-- What is wrong where an option lacks its value and `argument`, which starts with a dash, comes
next: that there is no such argument, or else that the value is missing. -/
def valueFault (option : ValueOption) (argument : String) : ArgumentError :=
  let result : Except Stop Given :=
    match longName? argument, shortNames? argument with
    | some (name, value), _ =>
      if argument = "--" || (ValueOption.ofLong? name).isSome then .ok .empty
      else Given.empty.useLong Switch.isCheck name value
    | none, some letters => Given.empty.useLetters Switch.isCheck (letters.take 1)
    | none, none => .ok .empty
  match result with
  | .error (.error error) => error
  | _ => .missingValue option.display

/-- What is given after the subcommand. -/
def readCheck : Given → List String → Except Stop Given
  | given, [] => .ok given
  | given, argument :: rest =>
    if argument = "--" then .ok { given with paths := given.paths ++ rest }
    else
      match longName? argument, shortNames? argument with
      | some (name, value), _ =>
        match ValueOption.ofLong? name, value, rest with
        | some option, some value, rest => readCheck (given.addValue option value) rest
        | some option, none, value :: rest =>
          if looksLikeOption value then .error (.error (valueFault option value))
          else readCheck (given.addValue option value) rest
        | some option, none, [] => .error (.error (.missingValue option.display))
        | none, _, rest => do
          let given ← given.useLong Switch.isCheck name value
          readCheck given rest
      | none, some letters => do
        let given ← given.useLetters Switch.isCheck letters
        readCheck given rest
      | none, none => readCheck { given with paths := given.paths ++ [argument] } rest

/-- What the arguments ask for. -/
inductive Invocation where
  | version
  | help
  | check (options : CheckOptions)
deriving DecidableEq, Repr

/-- The options of a check from what is given before and after the subcommand. -/
def checkOptions (before after : Given) : CheckOptions where
  paths := after.paths
  select := after.select
  ignore := after.ignore
  hidden := after.switches.contains .hidden
  noIgnore := after.switches.contains .noIgnore
  quiet := before.switches.contains .quiet || after.switches.contains .quiet

/-- The names of the subcommands. -/
def subcommands : List String := ["check", "help"]

/-- Why reading stops at the subcommand `help`, which the name of one subcommand may follow. -/
def stopAtHelp : List String → Stop
  | [] => .shortcut .help
  | name :: rest =>
    if name ∈ subcommands then
      match rest with
      | [] => .shortcut .help
      | extra :: _ => .error (.unknownSubcommand extra)
    else .error (.unknownSubcommand name)

/-- What is wrong where there is no subcommand after what has been given. -/
def Given.lacking (before : Given) : ArgumentError :=
  if before.switches.isEmpty then .nothing else .noSubcommand

/-- What is wrong with two dashes before the subcommand: what follows them cannot be one. -/
def faultAfterDashes (before : Given) : List String → ArgumentError
  | [] => before.lacking
  | argument :: _ =>
    if argument ∈ subcommands then .unknownArgument argument else .unknownSubcommand argument

/-- What is given before the subcommand, and the subcommand itself. -/
def readTop : Given → List String → Except Stop CheckOptions
  | before, [] => .error (.error before.lacking)
  | before, "--" :: rest => .error (.error (faultAfterDashes before rest))
  | before, argument :: rest =>
    match longName? argument, shortNames? argument with
    | some (name, value), _ => do
      let before ← before.useLong Switch.isTop name value
      readTop before rest
    | none, some letters => do
      let before ← before.useLetters Switch.isTop letters
      readTop before rest
    | none, none =>
      if argument = "check" then do
        let after ← readCheck .empty rest
        after.validate.mapError .error
        before.validate.mapError .error
        return checkOptions before after
      else if argument = "help" then .error (stopAtHelp rest)
      else .error (.error (.unknownSubcommand argument))

/-- What the arguments ask for, or what is wrong with them. -/
def Invocation.ofArguments (arguments : List String) : Except ArgumentError Invocation :=
  match readTop .empty arguments with
  | .ok options => .ok (.check options)
  | .error (.shortcut .version) => .ok .version
  | .error (.shortcut .help) => .ok .help
  | .error (.error error) => .error error

/-- How to call the command. -/
def usage : String :=
  "Usage: t4 [OPTIONS] check [--select <SELECT>] [--ignore <IGNORE>] [--hidden] [--no-ignore] " ++
    "[PATHS]...\n"

/-- The outcome of the command with the arguments. -/
def runCommand (arguments : List String) (env : Environment) : Outcome :=
  match Invocation.ofArguments arguments with
  | .ok .version => ⟨"t4 0.1.0\n", none, 0⟩
  | .ok .help => ⟨usage, none, 0⟩
  | .ok (.check options) => options.run env
  | .error error => ⟨"", error.message?.map ("error: " ++ ·), 2⟩

end TextTemplate
