import TextTemplate.Diagnostic
import TextTemplate.Schema.Builtin
import TextTemplate.Tree.Visitor

/-!
# Directives against their schemas

Only directives with an end are checked, since the others have a fault of form already. Of each
directive the missing attributes come first, in the order of the schema, and then at most one
violation for each of its attributes in the order of the text: it was given before, it is not in the
schema, or its value is not a known one.

What is said of an unknown value that is not there is a parameter of the check (`checkOr`), which
`check` sets to the place where the attribute ends. Any node can be asked for its violations, and
`Visitor.checker` gathers them on a walk of the tree.
-/
namespace TextTemplate

namespace Directive

/-- The first attribute of the name is absent or has an empty value. -/
def lacks (d : Directive) (name : String) : Bool :=
  match d.value? name with
  | none => true
  | some value => value.isEmpty

/-- The diagnostics for required attributes that the directive lacks. -/
def missing (d : Directive) : List Diagnostic :=
  (d.schema.required.filter fun known => d.lacks known.name).map fun known =>
    ⟨.missingAttribute known.displayName, d.span, d.position⟩

/-- What is said of an unknown value that is not there. -/
def absentValue (attr : Attribute) (known : AttributeSchema) : Diagnostic :=
  ⟨.invalidAttributeValue known.displayName attr.valueText, .emptyAt attr.span.stop, attr.position⟩

section Or
variable (absent : Attribute → AttributeSchema → Diagnostic)

/-- The diagnostic for a value that the attribute does not know, when `absent` is said of an
attribute that has no value. -/
def invalidValueOr (attr : Attribute) (known : AttributeSchema) : Diagnostic :=
  match attr.value with
  | some value =>
    ⟨.invalidAttributeValue known.displayName attr.valueText, value.span, value.position⟩
  | none => absent attr known

/-- The violation by the attribute at place `i`, if there is one, when `absent` is said of an
attribute that has no value. -/
def violationOr? (d : Directive) (attr : Attribute) (i : Nat) : Option Diagnostic :=
  if d.findIdx? attr.name.text ≠ some i then
    some ⟨.duplicateAttribute attr.name.text, attr.span, attr.position⟩
  else
    match d.schema.attribute? attr.name.text with
    | none =>
      if d.schema.acceptsUnknown then none
      else some ⟨.unexpectedAttribute attr.name.text, attr.span, attr.position⟩
    | some known =>
      if known.accepts attr.valueText then none else some (invalidValueOr absent attr known)

/-- The violations of the directive's schema, when `absent` is said of an attribute that has no
value. -/
def checkOr (d : Directive) : List Diagnostic :=
  if d.isComplete then
    d.missing ++ d.attributes.zipIdx.filterMap fun (attr, i) => d.violationOr? absent attr i
  else []

end Or

/-- The violation by the attribute at place `i`, if there is one. -/
def violation? (d : Directive) (attr : Attribute) (i : Nat) : Option Diagnostic :=
  d.violationOr? absentValue attr i

/-- The violations of the directive's schema. -/
def check (d : Directive) : List Diagnostic :=
  d.checkOr absentValue

theorem check_eq (d : Directive) :
    d.check =
      if d.isComplete then
        d.missing ++ d.attributes.zipIdx.filterMap fun (attr, i) => d.violation? attr i
      else [] :=
  rfl

end Directive

/-- The violations of the node itself, which only a directive can have. -/
def Node.check : Node → List Diagnostic
  | directive d => d.check
  | _ => []

namespace Template

/-- The violations of all directives, when `absent` is said of an attribute that has no value. -/
def checkOr (absent : Attribute → AttributeSchema → Diagnostic) (t : Template) : List Diagnostic :=
  t.directives.flatMap (Directive.checkOr absent)

/-- The violations of all directives in the order of the text. -/
def check (t : Template) : List Diagnostic :=
  t.checkOr Directive.absentValue

theorem check_eq (t : Template) : t.check = t.directives.flatMap Directive.check :=
  rfl

end Template

end TextTemplate
