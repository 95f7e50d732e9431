import TextTemplate.Source.Span
import TextTemplate.Source.Position

/-!
# Tokens

The kinds of token that a template is made of, and tokens with their place in the text. A `Mark` is
a token without its text, which for a delimiter is known from the kind.
-/
namespace TextTemplate

/-- What a token is. -/
inductive TokenKind where
  /-- The delimiter `<#`. -/
  | statementStart
  /-- The delimiter `<#=`. -/
  | expressionStart
  /-- The delimiter `<#+`. -/
  | classStart
  /-- The delimiter `<#@`. -/
  | directiveStart
  /-- The delimiter `#>`. -/
  | blockEnd
  /-- The sign between an attribute's name and its value. -/
  | equals
  /-- The sign around an attribute's value. -/
  | quote
  | directiveName
  | attributeName
  | attributeValue
  /-- The text of a statement, expression or class block. -/
  | code
  | endOfFile
deriving DecidableEq, Repr

namespace TokenKind

/-- The kind opens a block. -/
def isBlockStart : TokenKind → Bool
  | statementStart | expressionStart | classStart | directiveStart => true
  | _ => false

/-- The kind is a name or a value, whose text the reader of a template chose. -/
def isCapture : TokenKind → Bool
  | directiveName | attributeName | attributeValue => true
  | _ => false

end TokenKind

/-- A token's kind and place. -/
@[ext]
structure Mark where
  kind : TokenKind
  span : Span
  position : Position
deriving DecidableEq

/-- A token with its text. -/
@[ext]
structure Token extends Mark where
  text : String
deriving DecidableEq

end TextTemplate
