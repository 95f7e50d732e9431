import TextTemplate.Files.FileSystem
import TextTemplate.Files.Ignore

/-!
# Ignore files outside of the tree

A directory is the top of a repository if it holds `.git` or `.jj`. Besides the ignore files in its
tree a repository has one of its own, `info/exclude` below `.git`, and the user has one for all
repositories. A file in the place of `.git` names the directory that stands for it.

The user's file is the one that the settings of Git name as `excludesfile`, those in the home
directory first. If neither do, it is `git/ignore` in the configuration directory.
-/
namespace TextTemplate

namespace GitSettings

/-- The character is white space of ASCII. -/
def isAsciiSpace (c : Char) : Bool :=
  c = ' ' || ('\t' ≤ c && c ≤ '\r')

/-- Nothing but white space comes before the end of the line. -/
def endsLine (cs : List Char) : Bool :=
  (cs.takeWhile isAsciiSpace).contains '\n' || cs.all isAsciiSpace

/-- Nothing but white space and a quote comes before the end of the line. -/
def endsQuoted (cs : List Char) : Bool :=
  match cs.dropWhile isAsciiSpace with
  | '"' :: rest => endsLine rest
  | _ => false

/-- The word in front, if nothing but a quote follows it on its line. A quote at the end of the word
closes it. -/
def lastWord? (cs : List Char) : Option (List Char) :=
  let word := cs.takeWhile (!isAsciiSpace ·)
  let rest := cs.drop word.length
  if word.isEmpty then none
  else if endsLine rest then
    some (if word.getLast? = some '"' && 1 < word.length then word.dropLast else word)
  else if endsQuoted rest then some word
  else none

/-- The word after an equals sign. A quote in front opens it, unless no word follows the quote. -/
def assignedWord? (cs : List Char) : Option (List Char) :=
  match cs.dropWhile isAsciiSpace with
  | '=' :: rest =>
    let rest := rest.dropWhile isAsciiSpace
    let opened := if rest.head? = some '"' then some (rest.tail.dropWhile isAsciiSpace) else none
    (opened.bind lastWord?).or (lastWord? rest)
  | _ => none

/-- What follows each line feed. -/
def afterLineFeeds : List Char → List (List Char)
  | [] => []
  | c :: cs => if c = '\n' then cs :: afterLineFeeds cs else afterLineFeeds cs

/-- The path that settings of Git name as `excludesfile`, if it is text. -/
def excludesFile? (content : List UInt8) : Option Spelling :=
  let key := "excludesfile"
  let cs := decodeLossy content
  let word? := (cs :: afterLineFeeds cs).findSome? fun line =>
    let line := line.dropWhile isAsciiSpace
    if sameLetters (String.ofList (line.take key.length)) key then
      assignedWord? (line.drop key.length)
    else none
  word?.filter (!·.contains replacement)

end GitSettings

namespace FileSystem

variable (fs : FileSystem)

/-- The rules in the ignore file at the place; none if there is no such file. -/
def ignoreRules (place : Place) : List IgnoreRule :=
  match fs.read? place with
  | some content => IgnoreRule.ofBytes content.toList
  | none => []

/-- The directory is the top of a repository. -/
def isRepository (directory : Place) : Bool :=
  fs.hasEntry (directory ++ [".git"]) || fs.hasEntry (directory ++ [".jj"])

/-- The first line of the file at the place. -/
def firstLine? (place : Place) : Option (List Char) := do
  let content ← fs.read? place
  return withoutEnd (← (textLines content.toList).head?)

/-- The path of the directory that the file `.git` in a directory names. -/
def linkedPath? (directory : Place) : Option Spelling := do
  "gitdir: ".toList.isPrefixOf? (← fs.firstLine? (directory ++ [".git"]))

/-- The path of the directory with what the linked repository shares with others, which a file in it
says from there on if it starts with a dot. -/
def sharedPath? (working directory : Place) : Option Spelling := do
  let linked ← fs.linkedPath? directory
  let shared ← fs.firstLine? (← fs.resolve? working (linked.join "commondir".toList))
  return if shared.head? = some '.' then linked.join shared else shared

/-- The place of the ignore file of the repository whose top is the directory. Paths in files are
relative to the working directory. -/
def excludePlace? (working directory : Place) : Option Place :=
  if fs.isFile (directory ++ [".git"]) then do
    fs.resolve? working ((← fs.sharedPath? working directory).join "info/exclude".toList)
  else some (directory ++ [".git", "info", "exclude"])

/-- The path of the user's ignore file. Each `~` in it stands for the home directory. -/
def userIgnorePath (home configuration : Place) : Spelling :=
  let named? (place : Place) := (fs.read? place).bind (GitSettings.excludesFile? ·.toList)
  match (named? (home ++ [".gitconfig"])).or (named? (configuration ++ ["git", "config"])) with
  | some path => path.flatMap fun c => if c = '~' then home.spelling else [c]
  | none => Place.spelling (configuration ++ ["git", "ignore"])

/-- The rules in the user's ignore file. -/
def userRules (working home configuration : Place) : List IgnoreRule :=
  match fs.resolve? working (fs.userIgnorePath home configuration) with
  | some place => fs.ignoreRules place
  | none => []

end FileSystem

end TextTemplate
