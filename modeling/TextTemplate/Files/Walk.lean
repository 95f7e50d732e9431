import TextTemplate.Files.Exclude

/-!
# Finding template files

Which files a list of paths stands for. A path to a file stands for that file, whatever it is
called. A path to a directory stands for the template files below it, except those that are hidden
or ignored or below something that is.

Ignore files are looked for in every directory from that of an entry up to the root. A deeper file
comes before a higher one, and `.ignore` before `.gitignore`, the file of the repository and that of
the user. The latter three count only inside of a repository, and the first two of them only up to
its top.
-/
namespace TextTemplate

/-- How to look for files. -/
structure WalkOptions where
  /-- Hidden files and directories count too. -/
  hidden : Bool
  /-- Ignore files do not count. -/
  noIgnore : Bool
  /-- Globs that choose files, or leave them out if they start with `!`. -/
  globs : List String
  /-- The user's rules for what is inside of a repository, relative to the working directory. -/
  userRules : List IgnoreRule
deriving DecidableEq, Repr

namespace WalkOptions

/-- The rules of the globs that are well formed, with a plain glob for what to leave out turned
around. -/
def overrides (options : WalkOptions) : List IgnoreRule :=
  options.globs.filterMap fun glob => IgnoreRule.ofLine? false glob.toList

end WalkOptions

/-- The directories from that of the place up to the root. -/
def Place.above : Place → List Place
  | place => ((List.range place.length).map place.take).reverse

/-- A directory whose ignore files count for an entry, and the entry as they see it. -/
structure EntryView where
  directory : Place
  path : Spelling

/-- A directory that is searched: its place, and the path that it was given by. -/
structure SearchRoot where
  place : Place
  spelling : Spelling

/-- What the names lead to from the directory that is searched. -/
structure Entry where
  root : SearchRoot
  names : List String
  isDirectory : Bool

namespace Entry

variable (entry : Entry)

/-- The path of the entry. -/
def path : Spelling :=
  (entry.root.spelling.below entry.names).withoutHere

/-- The entry from the root directory on. -/
def absolutePath : Spelling :=
  let spelling := entry.root.spelling
  let rest :=
    if spelling.isHere then entry.path else Spelling.dropLead spelling.withoutHere entry.path
  entry.root.place.spelling.join rest

/-- The entry as seen from the directories above it, the nearest first. Those outside of the search
see the absolute path. -/
def views : List EntryView :=
  let inner := (List.range entry.names.length).reverse.map fun n =>
    let names := entry.names.take n
    ⟨entry.root.place ++ names, (entry.root.spelling.below names).seenFrom entry.path⟩
  let outer := entry.root.place.above.map fun directory =>
    ⟨directory, directory.spelling.seenFrom entry.absolutePath⟩
  inner ++ outer

/-- The name of the entry starts with a dot. -/
def isHidden : Bool :=
  (entry.names.getLast?.bind (·.toList.head?)) = some '.'

/-- What rules say of the entry, which they see at the path. -/
def verdict (rules : List IgnoreRule) (path : Spelling) : Verdict :=
  IgnoreRule.verdict rules path.bytes entry.isDirectory

/-- What the globs say of the entry: a plain glob keeps, and if there is one, files that nothing
matches are left out. -/
def overrideVerdict (rules : List IgnoreRule) : Verdict :=
  match (entry.verdict rules (entry.root.spelling.seenFrom entry.path)).invert with
  | .undecided =>
    if rules.any (fun rule => !rule.negated) && !entry.isDirectory then .ignored else .undecided
  | verdict => verdict

end Entry

namespace FileSystem

variable (fs : FileSystem)

/-- What the ignore file of the name in a directory says of an entry. -/
def verdictOf (name : String) (entry : Entry) (view : EntryView) : Verdict :=
  entry.verdict (fs.ignoreRules (view.directory ++ [name])) view.path

/-- What the ignore file of the repository whose top is a directory says of an entry. -/
def excludeVerdict (working : Place) (entry : Entry) (view : EntryView) : Verdict :=
  match fs.excludePlace? working view.directory with
  | some place => entry.verdict (fs.ignoreRules place) view.path
  | none => .undecided

/-- The views up to the first from the top of a repository, that one included. -/
def upToRepository : List EntryView → List EntryView
  | [] => []
  | view :: rest =>
    if fs.isRepository view.directory then [view] else view :: upToRepository rest

/-- What the ignore files say of an entry. -/
def ignoreVerdict (options : WalkOptions) (working : Place) (entry : Entry) : Verdict :=
  let views := entry.views
  let tree := Verdict.first (views.map (fs.verdictOf ".ignore" entry))
  if views.any fun view => fs.isRepository view.directory then
    let within := fs.upToRepository views
    Verdict.first
      [tree,
       .first (within.map (fs.verdictOf ".gitignore" entry)),
       .first (within.map (fs.excludeVerdict working entry)),
       entry.verdict options.userRules (working.spelling.seenFrom entry.path)]
  else tree

/-- The entry is passed over. -/
def skips (options : WalkOptions) (working : Place) (entry : Entry) : Bool :=
  let verdict :=
    (entry.overrideVerdict options.overrides).orElse
      (if options.noIgnore then .undecided else fs.ignoreVerdict options working entry)
  match verdict with
  | .ignored => true
  | .kept => false
  | .undecided => !options.hidden && entry.isHidden

/-- The file is below the root, and neither it nor a directory on the way is passed over. -/
def reaches (options : WalkOptions) (working : Place) (root : SearchRoot) (file : Place) : Bool :=
  match root.place.isPrefixOf? file with
  | none | some [] => false
  | some names =>
    (List.range' 1 names.length).all fun n =>
      !fs.skips options working ⟨root, names.take n, n < names.length⟩

/-- The template files below a directory. -/
def templatesBelow (options : WalkOptions) (working : Place) (root : SearchRoot) : List Place :=
  (fs.files.map (·.1)).filter fun file =>
    isTemplateFile file.toPath && fs.reaches options working root file

/-- The files that a path from the working directory stands for. -/
def filesOf (options : WalkOptions) (working : Place) (path : String) : List Place :=
  match fs.resolve? working path.toList with
  | none => []
  | some place =>
    if fs.isFile place then [place]
    else if fs.isDirectory place then fs.templatesBelow options working ⟨place, path.toList⟩
    else []

/-- The files that the paths stand for, in order and each once. -/
def walk (options : WalkOptions) (working : Place) (paths : List String) : List Place :=
  ((paths.flatMap (fs.filesOf options working)).mergeSort Place.le).eraseReps

end FileSystem

end TextTemplate
