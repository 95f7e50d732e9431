import Std.Data.HashMap
import TextTemplate.Text.Letters
import TextTemplate.Token.Basic

/-!
# The tree of a template

A template is a list of blocks: directives `<#@ name attribute="value" … #>` and code blocks. Parts
that a malformed template lacks are absent from the tree, so a block without its end and an
attribute without its value are trees too. Spans and positions of inner nodes follow from those of
their tokens.
-/
namespace TextTemplate

/-- The directives that a name can stand for. -/
inductive DirectiveKind where
  | assembly
  | imports
  | includes
  | output
  | parameter
  | template
  /-- A directive of any other name, left to a directive processor. -/
  | custom
deriving DecidableEq, Repr

namespace DirectiveKind

/-- All kinds, the custom directives last. -/
def all : List DirectiveKind :=
  [assembly, imports, includes, output, parameter, template, custom]

/-- The name of the directive in lower case; custom directives have none. -/
def name : DirectiveKind → String
  | assembly => "assembly"
  | imports => "import"
  | includes => "include"
  | output => "output"
  | parameter => "parameter"
  | template => "template"
  | custom => ""

/-- The directive that a name stands for, in any case of letters. -/
def ofName (name : String) : DirectiveKind :=
  ((all.filter (· ≠ custom)).find? fun kind => sameLetters kind.name name).getD custom

end DirectiveKind

/-- An attribute `name="value"`, as far as it was written. -/
@[ext]
structure Attribute where
  name : Token
  equals : Option Mark
  openQuote : Option Mark
  value : Option Token
  closeQuote : Option Mark
deriving DecidableEq

namespace Attribute

/-- The spans of the parts that are present, in order, after the name's. -/
def partSpans (a : Attribute) : List Span :=
  (a.equals.map (·.span)).toList ++ (a.openQuote.map (·.span)).toList ++
    (a.value.map (·.span)).toList ++ (a.closeQuote.map (·.span)).toList

/-- From the name to the last part that is present. -/
def span (a : Attribute) : Span :=
  a.partSpans.foldl Span.cover a.name.span

/-- The place of the name. -/
def position (a : Attribute) : Position :=
  a.name.position

/-- The text of the value, empty if there is none. -/
def valueText (a : Attribute) : String :=
  (a.value.map (·.text)).getD ""

/-- The attribute has its closing quote. -/
def isComplete (a : Attribute) : Bool :=
  a.closeQuote.isSome

end Attribute

/-- A statement, expression or class block. -/
@[ext]
structure CodeBlock where
  start : Mark
  code : Option Mark
  stop : Option Mark
deriving DecidableEq

namespace CodeBlock

/-- From the start to the last part that is present. -/
def span (b : CodeBlock) : Span :=
  ((b.code.map (·.span)).toList ++ (b.stop.map (·.span)).toList).foldl Span.cover b.start.span

/-- The place of the start. -/
def position (b : CodeBlock) : Position :=
  b.start.position

/-- The block has its end. -/
def isComplete (b : CodeBlock) : Bool :=
  b.stop.isSome

end CodeBlock

/-- A directive, as far as it was written. -/
@[ext]
structure Directive where
  start : Mark
  name : Token
  attributes : List Attribute
  stop : Option Mark
deriving DecidableEq

namespace Directive

/-- What the name stands for. -/
def kind (d : Directive) : DirectiveKind :=
  .ofName d.name.text

/-- From the start to the last part that is present. -/
def span (d : Directive) : Span :=
  ((d.attributes.getLast?.map (·.span)).toList ++ (d.stop.map (·.span)).toList).foldl Span.cover
    (d.start.span.cover d.name.span)

/-- The place of the start. -/
def position (d : Directive) : Position :=
  d.start.position

/-- The directive has its end. -/
def isComplete (d : Directive) : Bool :=
  d.stop.isSome

/-- Where each attribute name, in lower case, first occurs. -/
def index (d : Directive) : Std.HashMap String Nat :=
  d.attributes.zipIdx.foldl
    (fun found (attr, i) => found.insertIfNew (lowerCase attr.name.text) i) ∅

/-- The place among the attributes of the first one with the name, in any case of letters. -/
def findIdx? (d : Directive) (name : String) : Option Nat :=
  d.index[lowerCase name]?

/-- The first attribute with the name, in any case of letters. -/
def find? (d : Directive) (name : String) : Option Attribute :=
  (d.findIdx? name).bind (d.attributes[·]?)

/-- The value of the first attribute with the name, in any case of letters. -/
def value? (d : Directive) (name : String) : Option String :=
  (d.find? name).map (·.valueText)

end Directive

/-- A block of a template. -/
inductive Block where
  | directive (d : Directive)
  | code (b : CodeBlock)
deriving DecidableEq

namespace Block

def span : Block → Span
  | directive d => d.span
  | code b => b.span

def position : Block → Position
  | directive d => d.position
  | code b => b.position

/-- The block has its end. -/
def isComplete : Block → Bool
  | directive d => d.isComplete
  | code b => b.isComplete

def directive? : Block → Option Directive
  | directive d => some d
  | code _ => none

def code? : Block → Option CodeBlock
  | directive _ => none
  | code b => some b

end Block

/-- The blocks of a template in order, and the end of the file. -/
@[ext]
structure Template where
  blocks : List Block
  endOfFile : Mark
deriving DecidableEq

namespace Template

/-- From the first block to the end of the file. -/
def span (t : Template) : Span :=
  match t.blocks with
  | [] => t.endOfFile.span
  | first :: _ => first.span.through t.endOfFile.span

/-- The place of the first block, or the end of the file if there is none. -/
def position (t : Template) : Position :=
  match t.blocks with
  | [] => t.endOfFile.position
  | first :: _ => first.position

/-- The directives in order. -/
def directives (t : Template) : List Directive :=
  t.blocks.filterMap Block.directive?

/-- The code blocks in order. -/
def codeBlocks (t : Template) : List CodeBlock :=
  t.blocks.filterMap Block.code?

end Template

end TextTemplate
