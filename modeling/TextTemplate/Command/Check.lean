import TextTemplate.Files.Walk
import TextTemplate.Settings.Files
import TextTemplate.Settings.Selection
import TextTemplate.Snippet.Render
import TextTemplate.Workspace

/-!
# Checking templates

The check of a list of paths. If there are none it is the standard input that is checked, or the
working directory if the standard input is a terminal. Settings are loaded first. Each template is
analysed on its own, and the diagnostics that the settings report are printed in the order of the
analysis. Files come in the order of their places, each once; a file that is not text ends the
check.
-/
namespace TextTemplate

/-- What to check, and how. -/
structure CheckOptions where
  paths : List String
  select : List String
  ignore : List String
  hidden : Bool
  noIgnore : Bool
  quiet : Bool
deriving DecidableEq, Repr

/-- Why a check cannot be finished. -/
inductive CheckError where
  | settings (error : SettingsError)
  | input
  | file (place : Place)
deriving DecidableEq, Repr

namespace CheckError

/-- The message for the caller. -/
def message : CheckError → String
  | settings _ => "Failed to load settings"
  | input => "Failed to read stdin"
  | file place => "Failed to read " ++ place.text

end CheckError

/-- Where a command runs: the files, the working directory, the user's home directory and the one
for the configuration of programs, and its standard input and output. -/
structure Environment where
  fileSystem : FileSystem
  directory : Place
  home : Place
  configuration : Place
  /-- What comes in, unless from a terminal. -/
  input : Option ByteArray
  /-- What is printed goes to a terminal. -/
  terminal : Bool

namespace Environment

/-- The path of the user's settings file. -/
def userSettings (env : Environment) : String :=
  Place.text (env.configuration ++ ["t4", "t4.toml"])

/-- The settings of the project in the working directory, and of the user. -/
def settings (env : Environment) : Except SettingsError Settings :=
  env.fileSystem.settings env.directory (some env.userSettings)

/-- The files that the paths stand for. -/
def walk (env : Environment) (hidden noIgnore : Bool) (paths : List String) : List Place :=
  let userRules := env.fileSystem.userRules env.directory env.home env.configuration
  env.fileSystem.walk ⟨hidden, noIgnore, [], userRules⟩ env.directory paths

/-- How excerpts are written. -/
def renderer (env : Environment) : Renderer :=
  if env.terminal then .styled else .plain

end Environment

/-- The excerpts for the diagnostics of an analysis that the rules report. -/
def renderDiagnostics (renderer : Renderer) (rules : Rules) (path text : String)
    (diagnostics : List Diagnostic) : List String :=
  diagnostics.filterMap fun d =>
    (rules.setting d.code).severity?.map fun severity =>
      renderer.render ⟨text, path, d.code, d.message, severity, d.span⟩

/-- The excerpts for one template, which is opened in the workspace and closed again. -/
def checkText (renderer : Renderer) (rules : Rules) (w : Workspace) (path text : String) :
    List String × Workspace :=
  let (snapshot, w) := (w.openDocument path (.ofText text 0)).analysis? path
  let diagnostics := (snapshot.map (·.analysis.diagnostics)).getD []
  (renderDiagnostics renderer rules path text diagnostics, (w.close path).2)

/-- What has been found so far: the excerpts in order, and the number of files with at least one. -/
@[ext]
structure Findings where
  excerpts : List String
  files : Nat
deriving DecidableEq

namespace Findings

/-- Nothing. -/
def empty : Findings :=
  ⟨[], 0⟩

/-- The findings with those of one more file. -/
def add (findings : Findings) (excerpts : List String) : Findings :=
  if excerpts.isEmpty then findings
  else ⟨findings.excerpts ++ excerpts, findings.files + 1⟩

/-- The number and the noun, which gets an `s` unless the number is one. -/
def counted (n : Nat) (noun : String) : String :=
  toString n ++ " " ++ noun ++ if n = 1 then "" else "s"

/-- The closing message. -/
def message (findings : Findings) : String :=
  "Found " ++ counted findings.excerpts.length "diagnostic" ++ " in " ++
    counted findings.files "file" ++ "."

/-- The findings as printed: each excerpt and a blank line. -/
def printed (findings : Findings) : String :=
  String.join (findings.excerpts.map (· ++ "\n\n"))

end Findings

/-- What a command leaves: what it has printed, its closing message, and its exit status. -/
@[ext]
structure Outcome where
  output : String
  message : Option String
  status : Nat
deriving DecidableEq, Repr

/-- The findings of the files, up to the first that is not text. -/
def checkFiles (renderer : Renderer) (rules : Rules) (fs : FileSystem) :
    Workspace → Findings → List Place → Findings × Option CheckError
  | _, findings, [] => (findings, none)
  | w, findings, place :: places =>
    match (fs.read? place).bind String.fromUTF8? with
    | none => (findings, some (.file place))
    | some text =>
      let (excerpts, w) := checkText renderer rules w place.text text
      checkFiles renderer rules fs w (findings.add excerpts) places

namespace CheckOptions

/-- The standard input, if that is what is checked. -/
def input? (options : CheckOptions) (env : Environment) : Option ByteArray :=
  if options.paths.isEmpty then env.input else none

/-- The paths that are checked otherwise. -/
def roots (options : CheckOptions) (env : Environment) : List String :=
  if options.paths.isEmpty then [env.directory.text] else options.paths

/-- The findings of a check. -/
def findings (options : CheckOptions) (env : Environment) : Findings × Option CheckError :=
  match env.settings with
  | .error error => (.empty, some (.settings error))
  | .ok settings =>
    let rules := settings.rules.layered options.select options.ignore
    match options.input? env with
    | some input =>
      match String.fromUTF8? input with
      | none => (.empty, some .input)
      | some text =>
        (Findings.empty.add (checkText env.renderer rules .empty "<stdin>" text).1, none)
    | none =>
      let places := env.walk options.hidden options.noIgnore (options.roots env)
      checkFiles env.renderer rules env.fileSystem .empty .empty places

/-- The outcome of a check. It fails with 1 if something was found and with 2 if it was not
finished. A quiet check prints nothing but errors. -/
def run (options : CheckOptions) (env : Environment) : Outcome :=
  let (findings, error) := options.findings env
  let output := if options.quiet then "" else findings.printed
  match error with
  | some error => ⟨output, some ("error: " ++ error.message), 2⟩
  | none =>
    if findings.excerpts.isEmpty then ⟨output, none, 0⟩
    else ⟨output, if options.quiet then none else some findings.message, 1⟩

end CheckOptions

end TextTemplate
