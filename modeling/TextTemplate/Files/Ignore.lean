import TextTemplate.Files.Glob
import TextTemplate.Text.Blank
import TextTemplate.Text.Split
import TextTemplate.Text.Utf8

/-!
# Ignore rules

The lines of an ignore file. A line is a glob for paths relative to the directory of the file; one
without a slash is for names at any depth. `!` in front turns the rule around, a slash at the end
restricts it to directories, `#` in front makes it a comment. The last rule that matches a path
decides.
-/
namespace TextTemplate

/-- A rule of an ignore file. -/
structure IgnoreRule where
  /-- What matches is not ignored. -/
  negated : Bool
  directoriesOnly : Bool
  pattern : Pattern
deriving DecidableEq, Repr

/-- What a list of rules says of a path. -/
inductive Verdict where
  | undecided
  | ignored
  | kept
deriving DecidableEq, Repr

namespace Verdict

/-- The first of two verdicts that decides. -/
def orElse : Verdict → Verdict → Verdict
  | undecided, other => other
  | verdict, _ => verdict

/-- The first of several verdicts that decides. -/
def first (verdicts : List Verdict) : Verdict :=
  verdicts.foldr orElse undecided

/-- The opposite verdict. -/
def invert : Verdict → Verdict
  | undecided => undecided
  | ignored => kept
  | kept => ignored

end Verdict

namespace IgnoreRule

/-- The line without white space at the end, unless a backslash holds a blank there. -/
def trimLine (line : List Char) : List Char :=
  match line.reverse with
  | ' ' :: '\\' :: _ => line
  | _ => trimBlankEnd line

/-- The marks in front of a line: whether it is turned around, whether it starts with a slash, and
what follows. A backslash takes a mark's meaning away. -/
def splitMarks : List Char → Bool × Bool × List Char
  | '\\' :: '!' :: rest => (false, false, '!' :: rest)
  | '\\' :: '#' :: rest => (false, false, '#' :: rest)
  | '!' :: '/' :: rest => (true, true, rest)
  | '!' :: rest => (true, false, rest)
  | '/' :: rest => (false, true, rest)
  | rest => (false, false, rest)

/-- The slash at the end, with a backslash before it, taken away, and whether there was one. -/
def splitSlash (cs : List Char) : Bool × List Char :=
  match cs.reverse with
  | '/' :: '\\' :: rest => (true, rest.reverse)
  | '/' :: rest => (true, rest.reverse)
  | _ => (false, cs)

/-- The glob in full: a glob without a slash applies at any depth, and one that ends in two stars
applies to what is below only. -/
def fullGlob (anchored : Bool) (cs : List Char) : List Char :=
  let twoStars := ['*', '*']
  let deep := ['*', '*', '/']
  let cs :=
    if anchored || cs.contains '/' || deep.isPrefixOf cs || cs = twoStars then cs else deep ++ cs
  if ['/', '*', '*'].isSuffixOf cs then cs ++ ['/', '*'] else cs

/-- What comes of a line: no rule, a rule, or a glob that is not well formed. -/
inductive Line where
  | blank
  | invalid
  | rule (rule : IgnoreRule)

/-- The rule of a line. `lenient` says that a bracket which nothing closes stands for itself. -/
def ofLine (lenient : Bool) (line : List Char) : Line :=
  if line.head? = some '#' then .blank
  else
    let line := trimLine line
    if line.isEmpty then .blank
    else
      let (negated, anchored, rest) := splitMarks line
      let (directoriesOnly, rest) := splitSlash rest
      match Glob.parse? lenient (fullGlob anchored rest) with
      | none => .invalid
      | some glob => .rule ⟨negated, directoriesOnly, glob.pattern⟩

/-- The rule of a line, if there is one. -/
def ofLine? (lenient : Bool) (line : List Char) : Option IgnoreRule :=
  match ofLine lenient line with
  | .rule rule => some rule
  | _ => none

/-- The lines without byte order marks in front of the first one. -/
def withoutMarks : List (List Char) → List (List Char)
  | [] => []
  | line :: lines => line.dropWhile (· = Char.ofNat 0xFEFF) :: lines

/-- The rules of an ignore file, up to the first line that is not text. -/
def ofBytes (content : List UInt8) : List IgnoreRule :=
  (withoutMarks (textLines content)).filterMap fun line => ofLine? true (withoutEnd line)

/-- The rule applies to the relative path. -/
def applies (rule : IgnoreRule) (path : List UInt8) (directory : Bool) : Bool :=
  (!rule.directoriesOnly || directory) && rule.pattern.matchesBytes path

/-- What the last rule that applies says of the relative path. -/
def verdict (rules : List IgnoreRule) (path : List UInt8) (directory : Bool) : Verdict :=
  match rules.reverse.find? (·.applies path directory) with
  | none => .undecided
  | some rule => if rule.negated then .kept else .ignored

end IgnoreRule

end TextTemplate
