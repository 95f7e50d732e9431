import TextTemplate.Files.Path

/-!
# Spelled paths

A path letter by letter. Globs see an entry in the spelling that a search was given for its root and
not at its place. One `./` in front does not count to them, but a second one does. `seenFrom` is the
path that the globs of a directory see.
-/
namespace TextTemplate

/-- The letters of a path. -/
abbrev Spelling := List Char

namespace Spelling

/-- The path of what stands at a path in a directory. An absolute path is the same everywhere. -/
def join (directory path : Spelling) : Spelling :=
  if path.head? = some '/' then path
  else if directory.isEmpty || directory.getLast? = some '/' then directory ++ path
  else directory ++ '/' :: path

/-- The path of what the names lead to from a directory. -/
def below (directory : Spelling) (names : List String) : Spelling :=
  names.foldl (fun path name => join path name.toList) directory

/-- The path without one `./` in front. -/
def withoutHere : Spelling → Spelling
  | '.' :: '/' :: rest => rest
  | path => path

/-- The path is `.`, however it is spelled. -/
def isHere (path : Spelling) : Bool :=
  Path.ofString (String.ofList path) = [.here]

/-- The path without `lead` and a slash after it, if it starts with `lead`. -/
def dropLead (lead path : Spelling) : Spelling :=
  match lead.isPrefixOf? path with
  | some ('/' :: rest) => rest
  | some rest => rest
  | none => path

/-- The path as the globs of a directory see it. -/
def seenFrom (directory path : Spelling) : Spelling :=
  let directory := withoutHere directory
  let path := withoutHere path
  if isHere directory || !path.contains '/' then path else dropLead directory path

/-- The path with an ending after the name that it ends in, if it does not end in `..`. -/
def withEnding? (path : Spelling) (ending : List Char) : Option Spelling :=
  match (splitAtChar '/' path).reverse.dropWhile fun piece => piece = [] || piece = ['.'] with
  | [] => none
  | name :: above =>
    if name = ['.', '.'] then none
    else some (['/'].intercalate ((name ++ ending) :: above).reverse)

/-- The bytes of the path. -/
def bytes (path : Spelling) : List UInt8 :=
  (String.ofList path).toUTF8.toList

end Spelling

end TextTemplate
