import TextTemplate.Source.Span
import TextTemplate.Text.Bytes

/-!
# Positions and line indexes

A position is a zero-based line and a zero-based column. Lines end after each line feed and at no
other character; columns count bytes. A `LineIndex` holds where the lines of one text start, and
converts between offsets and positions.

Lines and columns have the bounds of offsets. The sums on the way from a position to its offset may
leave these bounds, and then there is no answer but `Overflow`.
-/
namespace TextTemplate

/-- A zero-based line and a byte column in it. -/
@[ext]
structure Position where
  line : Nat
  column : Nat
deriving DecidableEq

namespace Position

/-- The position of the first character of a text. -/
def origin : Position := ⟨0, 0⟩

/-- The position after one more character. -/
def advance (p : Position) (c : Char) : Position :=
  if c = '\n' then ⟨p.line + 1, 0⟩ else ⟨p.line, p.column + c.utf8Size⟩

end Position

/-- What there is in place of a sum beyond `maxOffset`. -/
inductive Overflow where
  | overflow
deriving DecidableEq, Repr

/-- The sum within the bounds of offsets. -/
def boundedSum (a b : Nat) : Except Overflow Nat :=
  if a + b ≤ maxOffset then .ok (a + b) else .error .overflow

/-- The offsets at which the lines of a text start, and the length of the text. -/
@[ext]
structure LineIndex where
  starts : List Nat
  length : Nat
deriving DecidableEq

namespace LineIndex

/-- The offsets after each line feed, when the first character stands at `offset`. -/
def startsAfter (offset : Nat) : List Char → List Nat
  | [] => []
  | c :: cs =>
    let next := offset + c.utf8Size
    if c = '\n' then next :: startsAfter next cs else startsAfter next cs

/-- The lines of a text: one more than it has line feeds. -/
def ofChars (cs : List Char) : LineIndex where
  starts := 0 :: startsAfter 0 cs
  length := byteLength cs

/-- The lines of a text. -/
def ofText (text : String) : LineIndex :=
  ofChars text.toList

/-- The number of lines. -/
def lineCount (index : LineIndex) : Nat :=
  index.starts.length

/-- The offset at which a line starts, if there is such a line. -/
def lineStart? (index : LineIndex) (line : Nat) : Option Nat :=
  index.starts[line]?

/-- The last line that starts at or before `offset`. -/
def lineAt (index : LineIndex) (offset : Nat) : Nat :=
  (index.starts.takeWhile (· ≤ offset)).length - 1

/-- The position of an offset. An offset beyond the text counts as the end of the text. -/
def position (index : LineIndex) (offset : Nat) : Position :=
  let offset := min offset index.length
  let line := index.lineAt offset
  ⟨line, offset - index.starts.getD line 0⟩

/-- The offset of a position, if its line exists. A column beyond the line counts as the start of
the next line, or as the end of the text on the last line. -/
def offset? (index : LineIndex) (p : Position) : Except Overflow (Option Nat) :=
  match index.lineStart? p.line with
  | none => .ok none
  | some start => do
    let next ← boundedSum p.line 1
    let bound := (index.lineStart? next).getD index.length
    let offset ← boundedSum start p.column
    return some (min offset bound)

end LineIndex

end TextTemplate
