import TextTemplate.Source.Span
import TextTemplate.Source.Position

/-!
# Diagnostics

What can be wrong with a template, and where. A `Cause` is either a fault of form, found while the
tokens are put together, or a violation of the schema of a directive. Every cause has a fixed code,
by which severities are configured, and a message.
-/
namespace TextTemplate

/-- What is wrong with a template. -/
inductive Cause where
  /-- A token outside of any block. -/
  | blockStartExpected
  /-- Neither code nor an end after the start of a code block. -/
  | codeOrBlockEndExpected
  /-- No end after the code of a block. -/
  | blockEndExpected
  /-- No name after the start of a directive. -/
  | directiveNameExpected
  /-- Neither another attribute nor the end of the directive. -/
  | blockEndOrAttributeNameExpected
  /-- No equals sign after an attribute's name. -/
  | equalsExpected
  /-- No quote before or after an attribute's value. -/
  | quoteExpected
  /-- No value after an opening quote. -/
  | attributeValueExpected
  /-- A required attribute is absent or empty. -/
  | missingAttribute (name : String)
  /-- An attribute that the directive does not have. -/
  | unexpectedAttribute (name : String)
  /-- A value that is not among the known values of the attribute. -/
  | invalidAttributeValue (name value : String)
  /-- An attribute that was given before. -/
  | duplicateAttribute (name : String)
deriving DecidableEq, Repr

namespace Cause

/-- The code of the cause. Faults of form start with `T`, violations of a schema with `S`. -/
def code : Cause → String
  | blockStartExpected => "T100"
  | codeOrBlockEndExpected => "T101"
  | blockEndExpected => "T102"
  | directiveNameExpected => "T103"
  | blockEndOrAttributeNameExpected => "T104"
  | equalsExpected => "T105"
  | quoteExpected => "T106"
  | attributeValueExpected => "T107"
  | missingAttribute _ => "S100"
  | unexpectedAttribute _ => "S101"
  | invalidAttributeValue _ _ => "S102"
  | duplicateAttribute _ => "S103"

/-- The message for the reader of the diagnostic. -/
def message : Cause → String
  | blockStartExpected => "<#, <#=, <#+ or <#@ expected"
  | codeOrBlockEndExpected => "code or #> expected"
  | blockEndExpected => "#> expected"
  | directiveNameExpected => "directive name expected"
  | blockEndOrAttributeNameExpected => "#> or attribute name expected"
  | equalsExpected => "= expected"
  | quoteExpected => "\" expected"
  | attributeValueExpected => "attribute value expected"
  | missingAttribute name => "The " ++ name ++ " attribute is required"
  | unexpectedAttribute name => "Unexpected " ++ name ++ " attribute"
  | invalidAttributeValue name value =>
    "'" ++ value ++ "' is not a valid value for the " ++ name ++ " attribute"
  | duplicateAttribute name => "Duplicate " ++ name ++ " attribute"

/-- The cause is a fault of form, as opposed to a violation of a schema. -/
def isFormal : Cause → Bool
  | missingAttribute _ | unexpectedAttribute _ | invalidAttributeValue _ _
  | duplicateAttribute _ => false
  | _ => true

end Cause

/-- A cause and the place it was found at. -/
@[ext]
structure Diagnostic where
  cause : Cause
  span : Span
  position : Position
deriving DecidableEq

namespace Diagnostic

/-- The code of the cause. -/
def code (d : Diagnostic) : String := d.cause.code

/-- The message of the cause. -/
def message (d : Diagnostic) : String := d.cause.message

end Diagnostic

end TextTemplate
