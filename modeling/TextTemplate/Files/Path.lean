import TextTemplate.Text.Letters
import TextTemplate.Text.Split

/-!
# Paths

A path is read as a list of parts. Repeated and trailing slashes do not count, and neither does a
`.` between or after other parts; a leading `.` and every `..` do. Two spellings name the same path
when they have the same parts.
-/
namespace TextTemplate

/-- A part of a path. -/
inductive PathPart where
  /-- The slash that an absolute path starts with. -/
  | root
  /-- A leading `.`. -/
  | here
  /-- The part `..`. -/
  | up
  | name (name : String)
deriving DecidableEq, Repr, Hashable

/-- The parts of a path. -/
abbrev Path := List PathPart

namespace Path

/-- The part that the characters between two slashes stand for, if they stand for one. -/
def part? (piece : List Char) : Option PathPart :=
  if piece = [] || piece = ['.'] then none
  else if piece = ['.', '.'] then some .up
  else some (.name (String.ofList piece))

/-- The parts of the spelled path. -/
def ofString (s : String) : Path :=
  let all := splitAtChar '/' s.toList
  let lead :=
    if s.toList.head? = some '/' then [PathPart.root]
    else if all.head? = some ['.'] then [.here]
    else []
  lead ++ all.filterMap part?

/-- The name at the end of the path, if it does not end in `..`. -/
def fileName? (path : Path) : Option String :=
  match path.getLast? with
  | some (.name name) => some name
  | _ => none

/-- What follows the last dot of the name at the end of the path. A dot at the start of the name
does not count. -/
def extension? (path : Path) : Option String := do
  let name ← path.fileName?
  let reversed := name.toList.reverse
  let ending := reversed.takeWhile (· ≠ '.')
  let stem := reversed.drop (ending.length + 1)
  if ending.length < reversed.length && !stem.isEmpty then some (String.ofList ending.reverse)
  else none

end Path

/-- The extensions of template files. -/
def templateExtensions : List String := ["tt", "t4", "ttinclude"]

/-- The path has one of the extensions of template files, in any case of letters. -/
def isTemplateFile (path : Path) : Bool :=
  match path.extension? with
  | some extension => templateExtensions.any (sameLetters · extension)
  | none => false

end TextTemplate
