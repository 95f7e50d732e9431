import TextTemplate.Text.Blank
import TextTemplate.Text.Bytes
import TextTemplate.Text.Split
import TextTemplate.Text.Width

/-!
# Lines to draw

The lines of a text as an excerpt shows them, and where an offset is on them. Other than in a line
index, what follows a final line feed is no line, and an offset there counts as beyond the end of
the last line.
-/
namespace TextTemplate

/-- A line: its first byte, the byte after its ending, and its characters without the ending. -/
@[ext]
structure SourceLine where
  start : Nat
  stop : Nat
  content : List Char
deriving DecidableEq

namespace SourceLine

/-- The lines, when the first one starts at `start`. -/
def placeFrom (start : Nat) : List (List Char) → List SourceLine
  | [] => []
  | line :: lines =>
    let stop := start + byteLength line
    ⟨start, stop, withoutEnd line⟩ :: placeFrom stop lines

/-- The lines of a text; an empty text has one empty line. -/
def ofChars (cs : List Char) : List SourceLine :=
  match placeFrom 0 (linesWithEnd cs) with
  | [] => [⟨0, 0, []⟩]
  | lines => lines

/-- The byte after the content. -/
def contentStop (line : SourceLine) : Nat :=
  line.start + byteLength line.content

/-- The characters that start before byte `bytes`. -/
def charsBefore : Nat → List Char → List Char
  | _, [] => []
  | 0, _ :: _ => []
  | bytes + 1, c :: cs => c :: charsBefore (bytes + 1 - c.utf8Size) cs

/-- The content before the offset. -/
def before (line : SourceLine) (offset : Nat) : List Char :=
  charsBefore (offset - line.start) line.content

/-- The offset is after the content, and not directly. -/
def endsBefore (line : SourceLine) (offset : Nat) : Bool :=
  line.contentStop < offset

/-- The line says too little to be worth showing: it is blank, a lone bracket or a comment. -/
def isTrivial (line : SourceLine) : Bool :=
  match trimBlank line.content with
  | [] => true
  | [c] => "\x7b\x7d()[]".toList.contains c
  | '/' :: '/' :: rest => rest.head? ≠ some '/' && rest.head? ≠ some '!'
  | _ => false

end SourceLine

/-- Where an offset is: the number of its line, and that line. -/
def locate (lines : List SourceLine) (offset : Nat) : Nat × SourceLine :=
  let last := lines.length - 1
  let line := (lines.findIdx? fun line => line.start ≤ offset && offset < line.stop).getD last
  (line, lines.getD line ⟨0, 0, []⟩)

end TextTemplate
