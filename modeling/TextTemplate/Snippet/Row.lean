import TextTemplate.Severity

/-!
# Rows of styled characters

A row of a drawing is a list of cells, each a character in a style. Text is put into a row at a
column: what is there is drawn over, and a gap before it is filled with blanks. A row prints as its
characters alone, or with escape sequences wherever the style changes.
-/
namespace TextTemplate

/-- How a cell is drawn. -/
inductive Style where
  | plain
  /-- In the colour of the severity. -/
  | level
  /-- For the message. -/
  | bold
  /-- For line numbers and the lines of the frame. -/
  | frame
deriving DecidableEq, Repr

/-- The escape character. -/
def escape : Char := Char.ofNat 27

/-- The sequence that sets a display attribute. -/
def sequence (attr : String) : List Char :=
  escape :: '[' :: attr.toList ++ ['m']

namespace Style

/-- The colour of each severity. -/
def colour : Severity → String
  | .error => "91"
  | .warning => "33"
  | .info => "94"
  | .hint => "96"

/-- What turns the style on. -/
def opening (severity : Severity) : Style → List Char
  | plain => []
  | level => sequence "1" ++ sequence (colour severity)
  | bold => sequence "1"
  | frame => sequence "1" ++ sequence "94"

/-- What turns the style off. -/
def closing : Style → List Char
  | plain => []
  | _ => sequence "0"

end Style

/-- A character and its style. -/
structure Cell where
  char : Char
  style : Style
deriving DecidableEq

/-- The cells of a row from column zero on. -/
abbrev Row := List Cell

namespace Row

/-- The characters in one style. -/
def styled (style : Style) (cs : List Char) : Row :=
  cs.map (⟨·, style⟩)

/-- The row with the characters at the column. -/
def put (row : Row) (column : Nat) (style : Style) (cs : List Char) : Row :=
  row.take column ++ styled .plain (List.replicate (column - row.length) ' ') ++ styled style cs ++
    row.drop (column + cs.length)

/-- The characters of the row. -/
def plainText (row : Row) : List Char :=
  row.map (·.char)

/-- The characters of the row with escape sequences, when the style before it is `style`. -/
def styledTextFrom (severity : Severity) (style : Style) : Row → List Char
  | [] => style.closing
  | cell :: row =>
    if cell.style = style then cell.char :: styledTextFrom severity style row
    else
      style.closing ++ cell.style.opening severity ++
        cell.char :: styledTextFrom severity cell.style row

/-- The characters of the row with escape sequences. -/
def styledText (severity : Severity) (row : Row) : List Char :=
  styledTextFrom severity .plain row

end Row

end TextTemplate
