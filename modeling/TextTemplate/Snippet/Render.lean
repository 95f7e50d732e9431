import TextTemplate.Snippet.Row
import TextTemplate.Snippet.SourceLine
import TextTemplate.Source.Span

/-!
# Excerpts

A diagnostic is shown with the lines that it is about: a header with severity, code and message, the
place of its start, and the source lines with the span marked. A span on one line is underlined; a
longer one is bracketed on the left, from its first line to its last, with lines left out in between
when there are many.
-/
namespace TextTemplate

/-- What to show: a text, a span of it, and what to say. -/
structure Snippet where
  source : String
  path : String
  code : String
  message : String
  severity : Severity
  span : Span
deriving DecidableEq

/-- The label of each severity. -/
def Severity.label : Severity → String
  | error => "error"
  | warning => "warning"
  | info => "info"
  | hint => "help"

/-- What is drawn for a character: four blanks for a tab, a picture for any other control character,
the replacement character for a control of the direction of writing, and nothing for the joiner that
makes one sign of two. -/
def drawn (c : Char) : List Char :=
  if c = '\t' then List.replicate tabWidth ' '
  else if c.toNat < 0x20 then [Char.ofNat (0x2400 + c.toNat)]
  else if c.toNat = 0x7F then [Char.ofNat 0x2421]
  else if c.toNat = 0x200D then []
  else if isDirectionControl c then [Char.ofNat 0xFFFD]
  else [c]

/-- The excerpt's frame: the lines of the text, and the width of the column of line numbers. -/
structure Frame where
  lines : List SourceLine
  width : Nat

namespace Frame

/-- The content of a line as drawn. -/
def content (f : Frame) (line : Nat) : List Char :=
  ((f.lines[line]?.map (·.content)).getD []).flatMap drawn

/-- A row with nothing but the frame. -/
def bare (f : Frame) : Row :=
  Row.put [] (f.width + 1) .frame ['|']

/-- A row with the number of a line and its content at the column. -/
def sourceRow (f : Frame) (line column : Nat) : Row :=
  let number := (toString (line + 1)).toList
  let padded := List.replicate (f.width - number.length) ' ' ++ number
  let row := (Row.put [] 0 .frame padded).put (f.width + 1) .frame ['|']
  let content := f.content line
  if content.isEmpty then row else row.put column .plain content

/-- A row with a line of a bracketed span, and the bracket's sign beside it. -/
def bracketRow (f : Frame) (line : Nat) (sign : Char) : Row :=
  (f.sourceRow line (f.width + 5)).put (f.width + 3) .level [sign]

/-- The line is too little to be worth showing. -/
def isTrivial (f : Frame) (line : Nat) : Bool :=
  (f.lines.getD line ⟨0, 0, []⟩).isTrivial

/-- The rows for a span on one line, from display column `first` up to `last`. -/
def underlined (f : Frame) (line first last : Nat) : List Row :=
  let marks := List.replicate (max (last - first) 1) '^'
  [f.sourceRow line (f.width + 3), f.bare.put (f.width + 3 + first) .level marks]

/-- The rows for the first line of a bracketed span, which starts at the display column. -/
def bracketOpening (f : Frame) (line column : Nat) : List Row :=
  if ((f.content line).take column).all isBlank then [f.bracketRow line '/']
  else
    let stroke := ' ' :: List.replicate (column + 1) '_' ++ ['^']
    [f.sourceRow line (f.width + 5), f.bare.put (f.width + 3) .level stroke]

/-- The rows for the last line of a bracketed span, which ends at the display column. -/
def bracketClosing (f : Frame) (line column : Nat) : List Row :=
  let stroke := '|' :: List.replicate (column - 1 + 1) '_' ++ ['^']
  [f.bracketRow line '|', f.bare.put (f.width + 3) .level stroke]

/-- The lines of a bracketed span that are shown in any case: the first, up to three more as long as
they lead to one that is worth showing, the last but one if it is worth showing, and the last. -/
def shownLines (f : Frame) (first last : Nat) : List Nat :=
  let middle := min (first + 4) last
  let worth := (List.range' first (middle - first)).filter fun line => !f.isTrivial line
  let reach := (worth.getLast?.map (· + 1)).getD first
  let lastButOne := if middle < last - 1 && !f.isTrivial (last - 1) then [last - 1] else []
  first :: List.range' (first + 1) (reach - (first + 1)) ++ lastButOne ++ [last]

/-- The rows between two shown lines: none, the one line between them, or dots for more. -/
def between (f : Frame) (line next : Nat) : List Row :=
  if line + 2 < next then
    [(Row.put [] 0 .frame ['.', '.', '.']).put (f.width + 3) .level ['|']]
  else if line + 2 = next then [f.bracketRow (line + 1) '|']
  else []

/-- The rows for the shown lines after the first. -/
def bracketRest (f : Frame) (endColumn : Nat) (line : Nat) : List Nat → List Row
  | [] => []
  | [last] => f.between line last ++ f.bracketClosing last endColumn
  | next :: rest =>
    f.between line next ++ f.bracketRow next '|' :: f.bracketRest endColumn next rest

/-- The rows for a span over several lines, from display column `column` of line `first` up to
`endColumn` of line `last`. -/
def bracketed (f : Frame) (first column last endColumn : Nat) : List Row :=
  f.bracketOpening first column ++ f.bracketRest endColumn first (f.shownLines first last).tail

end Frame

namespace Snippet

/-- The start of the span, or the end of the text if the span starts beyond it. -/
def start (s : Snippet) : Nat :=
  min s.span.start (byteLength s.source.toList)

/-- The end of the span, or the end of the text if the span ends beyond it. -/
def stop (s : Snippet) : Nat :=
  min s.span.stop (byteLength s.source.toList)

/-- The lines of the text. -/
def lines (s : Snippet) : List SourceLine :=
  SourceLine.ofChars s.source.toList

/-- The zero-based line and column, in characters, of the start. Beyond the end of a line is one
column further. -/
def place (s : Snippet) : Nat × Nat :=
  let (number, line) := locate s.lines s.start
  let column := (line.before s.start).length
  (number, if line.endsBefore s.start then column + 1 else column)

/-- The number of digits that the line numbers get: those of the line on which the span ends. A span
that ends at the start of a line counts as ending on the line before. -/
def numberWidth (s : Snippet) : Nat :=
  let before := SourceLine.charsBefore s.stop s.source.toList
  let feeds := before.count '\n'
  let line := if before.getLast? = some '\n' then feeds - 1 else feeds
  (toString (line + 1)).length

/-- The rows with severity, code and message, one for each line of the message. -/
def titleRows (s : Snippet) : List Row :=
  let label := (s.severity.label ++ "[" ++ s.code ++ "]").toList
  let margin := List.replicate (label.length + 2) ' '
  match splitAtChar '\n' s.message.toList with
  | [] => []
  | first :: rest =>
    (Row.styled .level label ++ Row.styled .bold (':' :: ' ' :: first.flatMap drawn)) ::
      rest.map fun line => Row.styled .plain margin ++ Row.styled .bold (line.flatMap drawn)

/-- The row with the place of the start. -/
def placeRow (s : Snippet) : Row :=
  let (line, column) := s.place
  let place := s.path ++ ":" ++ toString (line + 1) ++ ":" ++ toString (column + 1)
  Row.put [] s.numberWidth .frame "--> ".toList ++ Row.styled .plain place.toList

/-- The rows with the source. -/
def sourceRows (s : Snippet) : List Row :=
  let f : Frame := ⟨s.lines, s.numberWidth⟩
  let (first, firstLine) := locate s.lines s.start
  let column := displayWidth (firstLine.before s.start)
  if s.start = s.stop then f.underlined first column column
  else
    let (last, lastLine) := locate s.lines s.stop
    let endColumn := displayWidth (lastLine.before s.stop)
    if first = last then f.underlined first column endColumn
    else
      f.bracketed first column last
        (if lastLine.endsBefore s.stop then endColumn + 1 else endColumn)

/-- All rows of the excerpt. -/
def rows (s : Snippet) : List Row :=
  s.titleRows ++ s.placeRow :: Frame.bare ⟨s.lines, s.numberWidth⟩ :: s.sourceRows

/-- The rows as lines of a text. -/
def join (rows : List (List Char)) : String :=
  String.ofList (List.intercalate ['\n'] rows)

/-- The excerpt as plain text. -/
def plain (s : Snippet) : String :=
  join (s.rows.map Row.plainText)

/-- The excerpt with escape sequences for a terminal. -/
def styled (s : Snippet) : String :=
  join (s.rows.map (Row.styledText s.severity))

end Snippet

/-- How excerpts are written: for files and pipes, or for a terminal. -/
inductive Renderer where
  | plain
  | styled
deriving DecidableEq, Repr

/-- The excerpt as it is written. -/
def Renderer.render : Renderer → Snippet → String
  | plain, s => s.plain
  | styled, s => s.styled

end TextTemplate
