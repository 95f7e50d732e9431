import TextTemplate.Schema.Check
import TextTemplate.Tree.Segment

/-!
# The analysis of a template

The tree of a text together with everything that is wrong with it: the faults of form first, then
the violations of the directives' schemas.
-/
namespace TextTemplate

/-- The result of analysing one revision of a text. -/
@[ext]
structure Analysis where
  revision : Nat
  parsed : ParsedTemplate
deriving DecidableEq

namespace Analysis

/-- The analysis of a text as of the revision. -/
def ofText (revision : Nat) (text : String) : Analysis :=
  ⟨revision, parse text⟩

/-- The tree. -/
def template (a : Analysis) : Template :=
  a.parsed.template

/-- The faults of form. -/
def faults (a : Analysis) : List Diagnostic :=
  a.parsed.faults

/-- The faults of form, then the violations of schemas. -/
def diagnostics (a : Analysis) : List Diagnostic :=
  a.faults ++ a.template.check

end Analysis

end TextTemplate
