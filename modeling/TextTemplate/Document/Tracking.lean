import TextTemplate.Document.Edit

/-!
# Spans that follow their text

`Span.follow` says where the text of a span is after an edit. Text put in directly before the span
moves it, text put in directly after it does not belong to it, and an edit that overlaps an end of
the span moves that end to the edit's own.
-/
namespace TextTemplate

namespace Edit

/-- Where an offset behind the edited range comes to. -/
def shift (edit : Edit) (offset : Nat) : Nat :=
  min (offset - edit.span.length + edit.inserted) maxOffset

/-- Where the start of a followed span comes to. -/
def moveStart (edit : Edit) (offset : Nat) : Nat :=
  if offset < edit.span.start then offset
  else if edit.span.stop ≤ offset then edit.shift offset
  else edit.span.start

/-- Where the end of a followed span comes to. -/
def moveStop (edit : Edit) (offset : Nat) : Nat :=
  if offset ≤ edit.span.start then offset
  else if edit.span.stop ≤ offset then edit.shift offset
  else min (edit.span.start + edit.inserted) maxOffset

end Edit

namespace Span

/-- Where the text of the span is after the edit. -/
def follow (s : Span) (edit : Edit) : Span :=
  let start := edit.moveStart s.start
  .ofBounds start (max (edit.moveStop s.stop) start)

/-- Where the text of the span is after the edits, one after the other. -/
def followAll (s : Span) (edits : List Edit) : Span :=
  edits.foldl follow s

end Span

end TextTemplate
