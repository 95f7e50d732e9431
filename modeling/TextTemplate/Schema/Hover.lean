import TextTemplate.Schema.Builtin

/-!
# Descriptions at an offset

What to show to a reader who points at a byte of a template. A directive answers for all bytes of
its span: with its own description for the delimiters and the name, with those of the schema for its
attributes and their known values, and with nothing to show for all else, so that nobody else is
asked.
-/
namespace TextTemplate

/-- A description, if there is something to show, and the span that it is about. -/
@[ext]
structure QuickInfo where
  description : Option String
  span : Span
deriving DecidableEq

namespace QuickInfo

/-- Nothing to show for the span. -/
def nothing (span : Span) : QuickInfo :=
  ⟨none, span⟩

end QuickInfo

/-- What to show at an offset of an attribute's span. -/
def Attribute.describeAt (attr : Attribute) (schema : DirectiveSchema) (offset : Nat) : QuickInfo :=
  match schema.attribute? attr.name.text with
  | none => .nothing attr.span
  | some known =>
    match attr.value.filter (·.span.contains offset) with
    | some value => ⟨(known.value? value.text).map (·.description), value.span⟩
    | none => ⟨some known.description, attr.span⟩

/-- What to show at an offset, if it is inside of the directive. -/
def Directive.describeAt? (d : Directive) (offset : Nat) : Option QuickInfo :=
  if !d.span.contains offset then none
  else if d.start.span.contains offset || d.name.span.contains offset then
    some ⟨some d.schema.description, d.name.span⟩
  else
    match d.stop.filter (·.span.contains offset) with
    | some stop => some ⟨some d.schema.description, stop.span⟩
    | none =>
      match d.attributes.find? (·.span.contains offset) with
      | some attr => some (attr.describeAt d.schema offset)
      | none => some (.nothing (.emptyAt offset))

/-- What the first directive that answers shows at an offset. -/
def Template.describeAt? (t : Template) (offset : Nat) : Option QuickInfo :=
  t.directives.findSome? (·.describeAt? offset)

end TextTemplate
