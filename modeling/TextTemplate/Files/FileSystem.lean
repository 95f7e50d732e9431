import TextTemplate.Files.Spelling

/-!
# File systems

A file system as it is while a command runs: the files with their contents, and directories besides
those that hold files. Places are absolute, without links and without dots, so a place is the list
of names that lead to it. `FileSystem.resolve?` finds the place that a path leads to from a working
directory.
-/
namespace TextTemplate

/-- The names that lead from the root directory to a file or directory. -/
abbrev Place := List String

namespace Place

/-- The place as an absolute path. -/
def toPath (place : Place) : Path :=
  .root :: place.map .name

/-- The text of the absolute path to the place. -/
def text (place : Place) : String :=
  "/" ++ String.intercalate "/" place

/-- The letters of the absolute path to the place. -/
def spelling (place : Place) : Spelling :=
  place.text.toList

/-- The place of an absolute path without dots. -/
def ofString (path : String) : Place :=
  ((splitAtChar '/' path.toList).filter (· ≠ [])).map String.ofList

/-- The order of places: by name, from the root on. -/
def le (p q : Place) : Bool :=
  !decide (q.map String.toList < p.map String.toList)

end Place

/-- Files with their contents, and directories. -/
structure FileSystem where
  files : List (Place × ByteArray)
  directories : List Place

namespace FileSystem

/-- Nothing but the root directory. -/
def empty : FileSystem :=
  ⟨[], []⟩

/-- What is in one of the two file systems. The first one wins where both have a file. -/
instance : Append FileSystem where
  append fs other := ⟨fs.files ++ other.files, fs.directories ++ other.directories⟩

variable (fs : FileSystem)

/-- The content of the file at the place. -/
def read? (place : Place) : Option ByteArray :=
  fs.files.lookup place

/-- There is a file at the place. -/
def isFile (place : Place) : Bool :=
  (fs.read? place).isSome

/-- There is a directory at the place: the root, one that is listed, or one above something else. -/
def isDirectory (place : Place) : Bool :=
  place.isEmpty || fs.directories.any (place.isPrefixOf ·) ||
    fs.files.any fun (file, _) => place.isPrefixOf file && place ≠ file

/-- There is something at the place. -/
def hasEntry (place : Place) : Bool :=
  fs.isFile place || fs.isDirectory place

/-- The place after following one piece of a path from a place, which has to be a directory. -/
def follow? (place : Place) (piece : List Char) : Option Place :=
  if fs.isDirectory place then
    if piece = [] || piece = ['.'] then some place
    else if piece = ['.', '.'] then some place.dropLast
    else some (place ++ [String.ofList piece])
  else none

/-- The place that a path leads to from the working directory. There need not be anything at the
place itself, but everything on the way has to be a directory. -/
def resolve? (directory : Place) (path : Spelling) : Option Place :=
  let start := if path.head? = some '/' then [] else directory
  if path.isEmpty then none else (splitAtChar '/' path).foldlM fs.follow? start

end FileSystem

end TextTemplate
