import TextTemplate.Source.Position
import TextTemplate.Source.Span
import TextTemplate.Text.Bytes

/-!
# Documents and edits

An edit replaces the bytes of a span by a text. It applies only if the span lies within the text and
both ends are on character boundaries. A document is a text with the version number of its owner and
the index of its lines, which is made anew for each text; a list of edits changes it as a whole or,
if one of them does not apply, not at all.
-/
namespace TextTemplate

/-- Why an edit does not apply. -/
inductive EditError where
  /-- The edit's range ends beyond the text. -/
  | outOfBounds (start stop length : Nat)
  /-- An end of the range is inside of a character. -/
  | notOnBoundary (offset : Nat)
deriving DecidableEq, Repr

namespace EditError

/-- The message for the owner of the document. -/
def message : EditError → String
  | outOfBounds start stop length =>
    "edit range " ++ toString start ++ ".." ++ toString stop ++
      " is outside the document (length " ++ toString length ++ ")"
  | notOnBoundary offset => "offset " ++ toString offset ++ " is not on a character boundary"

end EditError

/-- A span and the text to put in its place. -/
structure Edit where
  span : Span
  text : String
deriving DecidableEq

namespace Edit

/-- The number of bytes put in, at most `maxOffset`. -/
def inserted (edit : Edit) : Nat :=
  min (byteLength edit.text.toList) maxOffset

/-- The characters after the edit. -/
def apply (edit : Edit) (cs : List Char) : Except EditError (List Char) :=
  let length := min (byteLength cs) maxOffset
  if length < edit.span.stop then .error (.outOfBounds edit.span.start edit.span.stop length)
  else
    match splitAtByte? cs edit.span.start, splitAtByte? cs edit.span.stop with
    | none, _ => .error (.notOnBoundary edit.span.start)
    | some _, none => .error (.notOnBoundary edit.span.stop)
    | some (before, _), some (_, after) => .ok (before ++ edit.text.toList ++ after)

/-- The characters after the edits, each made to what the ones before it have left. -/
def applyAll (edits : List Edit) (cs : List Char) : Except EditError (List Char) :=
  edits.foldlM (fun cs edit => edit.apply cs) cs

end Edit

/-- A text, its version and its lines. -/
@[ext]
structure Document where
  text : String
  version : Int
  lines : LineIndex
deriving DecidableEq

namespace Document

/-- The document of a text. -/
def ofText (text : String) (version : Int) : Document where
  text
  version
  lines := .ofText text

/-- The document with another text. -/
def replace (d : Document) (text : String) (version : Int) : Document :=
  { d with text, version, lines := .ofText text }

/-- The document with all edits made, or the error of the first that does not apply. -/
def edit (d : Document) (edits : List Edit) (version : Int) : Except EditError Document := do
  let cs ← Edit.applyAll edits d.text.toList
  return d.replace (String.ofList cs) version

end Document

end TextTemplate
