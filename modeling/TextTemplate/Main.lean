import TextTemplate.Command.Arguments

/-!
# The command

The command line itself. What a check can look at is read from the disk first, and everything
else is `runCommand`: the settings files, the files and directories that the arguments name, and the
ignore files that count for those. Links are not followed below a directory that is searched.
-/
namespace TextTemplate

/-- The content of the file at the place, if it can be read. -/
def readPlace? (place : Place) : IO (Option ByteArray) := do
  match ← (IO.FS.readBinFile place.text).toBaseIO with
  | .ok content => return some content
  | .error _ => return none

/-- The file at the place; nothing if it cannot be read. -/
def readFile (place : Place) : IO FileSystem := do
  match ← readPlace? place with
  | some content => return ⟨[(place, content)], []⟩
  | none => return .empty

/-- What is at the place itself, be it a file or a directory. -/
def readEntry (place : Place) : IO FileSystem := do
  match ← (IO.FS.realPath place.text).toBaseIO with
  | .ok path => if ← path.isDir then return ⟨[], [place]⟩ else readFile place
  | .error _ => return .empty

/-- Everything that was read, one after the other. -/
def readAll {α : Type} (items : List α) (read : α → IO FileSystem) : IO FileSystem :=
  return (← items.mapM read).foldl (· ++ ·) .empty

/-- The files that say in a directory what to pass over. -/
def readIgnoreFiles (directory : Place) : IO FileSystem :=
  readAll [[".ignore"], [".gitignore"], [".git"], [".git", "info", "exclude"], [".jj"]]
    fun names => readEntry (directory ++ names)

/-- The search looks into the file: it is a template or says what to pass over. -/
def isSearched (place : Place) : Bool :=
  isTemplateFile place.toPath ||
    [".ignore", ".gitignore", ".git", "exclude", ".jj"].any (place.getLast? = some ·)

/-- The files below a directory that a search looks into, and the directories, down to a depth. -/
def readBelow : Nat → Place → IO FileSystem
  | 0, _ => return .empty
  | depth + 1, directory => do
    let path ← IO.FS.realPath directory.text
    let .ok entries ← path.readDir.toBaseIO | return .empty
    readAll entries.toList fun entry => do
      let place := directory ++ [entry.fileName]
      match ← entry.path.symlinkMetadata.toBaseIO with
      | .ok metadata =>
        match metadata.type with
        | .dir => return ⟨[], [place]⟩ ++ (← readBelow depth place)
        | .file => if isSearched place then readFile place else return .empty
        | _ => return .empty
      | .error _ => return .empty

/-- How many directories below each other a search enters. -/
def searchDepth : Nat := 1000

/-- What stands on the way of a path from the directory, and what it leads to. -/
def readPath (directory : Place) (path : Spelling) : IO FileSystem := do
  let mut place : Place := if path.head? = some '/' then [] else directory
  let mut fs ← readEntry place
  for piece in splitAtChar '/' path do
    match fs.follow? place piece with
    | none => return fs
    | some next =>
      place := next
      fs := fs ++ (← readEntry place)
  return fs

/-- What a path from the directory leads to, with everything below if it is a directory. -/
def readTree (directory : Place) (path : Spelling) : IO FileSystem := do
  let fs ← readPath directory path
  match (fs.resolve? directory path).filter fs.isDirectory with
  | some place =>
    let above ← readAll (place :: place.above) readIgnoreFiles
    return fs ++ above ++ (← readBelow searchDepth place)
  | none => return fs

/-- The ignore files of repositories that files in the place of `.git` link to. -/
def readLinked (directory : Place) (fs : FileSystem) : IO FileSystem := do
  let links := (fs.files.map (·.1)).filter (·.getLast? = some ".git")
  let shared ← readAll (links.filterMap fun link => fs.linkedPath? link.dropLast) fun path =>
    readPath directory (path.join "commondir".toList)
  let fs := fs ++ shared
  let exclude ← readAll (links.filterMap fun link => fs.sharedPath? directory link.dropLast)
    fun path => readPath directory (path.join "info/exclude".toList)
  return fs ++ exclude

/-- The user's ignore file, and the settings that name it. -/
def readUserIgnore (env : Environment) : IO FileSystem := do
  let fs ← readAll [env.home ++ [".gitconfig"], env.configuration ++ ["git", "config"]] readFile
  return fs ++ (← readPath env.directory (fs.userIgnorePath env.home env.configuration))

/-- The home directory of the user, and the directory for the configuration of programs. -/
def userDirectories : IO (Place × Place) := do
  let home := Place.ofString ((← IO.getEnv "HOME").getD "/")
  match (← IO.getEnv "XDG_CONFIG_HOME").filter (·.startsWith "/") with
  | some path => return (home, Place.ofString path)
  | none => return (home, home ++ [".config"])

/-- What a check of the paths can look at. -/
def readEnvironment (paths : List String) : IO Environment := do
  let directory := Place.ofString (← IO.FS.realPath (← IO.currentDir)).toString
  let (home, configuration) ← userDirectories
  let stdin ← IO.getStdin
  let isPiped := paths.isEmpty && !(← stdin.isTty)
  let input ← if isPiped then some <$> stdin.readBinToEnd else pure none
  let terminal ← (← IO.getStdout).isTty
  let env : Environment := ⟨.empty, directory, home, configuration, input, terminal⟩
  let settings ← readAll ((env.userSettings :: projectSettings).flatMap (settingsPaths ·.toList))
    (readPath directory)
  let roots := if paths.isEmpty && !isPiped then [directory.text] else paths
  let trees ← readAll roots (readTree directory ·.toList)
  let fs ← readLinked directory (settings ++ trees ++ (← readUserIgnore env))
  return { env with fileSystem := fs }

/-- What the arguments let the command look at: nothing unless they ask for a check. -/
def environmentFor (arguments : List String) : IO Environment :=
  match Invocation.ofArguments arguments with
  | .ok (.check options) => readEnvironment options.paths
  | _ => return ⟨.empty, [], [], [], none, false⟩

end TextTemplate

open TextTemplate in
/-- Runs the command with the arguments, prints what it leaves, and gives its exit status. -/
def main (arguments : List String) : IO UInt32 := do
  let outcome := runCommand arguments (← environmentFor arguments)
  IO.print outcome.output
  if let some message := outcome.message then IO.eprintln message
  return UInt32.ofNat outcome.status
