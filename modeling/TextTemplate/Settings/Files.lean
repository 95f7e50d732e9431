import TextTemplate.Files.FileSystem
import TextTemplate.Settings.Load

/-!
# Settings of a project

Which files the settings of a project are in: that of the user, and `.t4.toml` and `t4.toml` in the
directory of the project, in rising order of precedence. In place of a file that is not there, one
counts that has the ending `.toml` besides.
-/
namespace TextTemplate

/-- The paths of the files that may stand for a settings file, the first that there is counting. -/
def settingsPaths (path : Spelling) : List Spelling :=
  path :: (path.withEnding? ".toml".toList).toList

/-- The names of the settings files of a project, in rising order of precedence. -/
def projectSettings : List String := [".t4.toml", "t4.toml"]

namespace FileSystem

variable (fs : FileSystem)

/-- The file that stands for the settings file at a path from a directory. -/
def settingsFile? (directory : Place) (path : String) : Option Place :=
  (settingsPaths path.toList).findSome? fun path =>
    (fs.resolve? directory path).filter fs.isFile

/-- The settings of the project in a directory, with the user's if there is a path to those. -/
def settings (directory : Place) (user : Option String) : Except SettingsError Settings :=
  let places := (user.toList ++ projectSettings).filterMap (fs.settingsFile? directory)
  Settings.ofFiles (places.filterMap fun place =>
    (fs.read? place).map fun content => (place.text, content))

end FileSystem

end TextTemplate
