import Mathlib.Data.List.ReduceOption
import TextTemplate.Proofs.AttributeIndex
import TextTemplate.Schema.View

/-!
# Attributes by name and by kind

A name stands for the first attribute that has it, in whatever case of letters. That is said here by
places: no attribute in front of the one that is found has the name (`findIdx?_eq_some_iff`).

The record of a directive's kind has a field for each attribute of the schema of that kind, in the
same order, and holds what the name in the schema stands for (`fields_view`). It is the only record
that can be had from the directive (`views_eq`).
-/
namespace TextTemplate

namespace DirectiveView

/-- The kind of directive that the record is for. -/
def kind : DirectiveView → DirectiveKind
  | assembly _ => .assembly
  | imports _ => .imports
  | includes _ => .includes
  | output _ => .output
  | parameter _ => .parameter
  | template _ => .template
  | custom _ => .custom

/-- The fields of the record, each with the name by which it is known in templates. -/
def fields : DirectiveView → List (String × Option String)
  | assembly v => [("name", v.name)]
  | imports v => [("namespace", v.namespaceName)]
  | includes v => [("file", v.file), ("once", v.once)]
  | output v => [("extension", v.extension), ("encoding", v.encoding)]
  | parameter v => [("name", v.name), ("type", v.type)]
  | template v =>
    [("language", v.language), ("debug", v.debug), ("hostspecific", v.hostSpecific),
     ("inherits", v.inherits), ("culture", v.culture), ("compilerOptions", v.compilerOptions),
     ("linePragmas", v.linePragmas), ("visibility", v.visibility)]
  | custom v => [("processor", v.processor)]

end DirectiveView

namespace Directive
variable {d : Directive} {name : String}

/-! ## Names -/

/-- The attribute that a name leads to has it, and none in front of it does. -/
theorem findIdx?_eq_some_iff {i : Nat} :
    d.findIdx? name = some i ↔
      ∃ attr, d.attributes[i]? = some attr ∧ attr.isNamed name = true ∧
        ∀ j < i, ∀ earlier, d.attributes[j]? = some earlier → earlier.isNamed name = false := by
  rw [findIdx?_eq, List.findIdx?_eq_some_iff_getElem]
  constructor
  · rintro ⟨hi, hnamed, hearlier⟩
    refine ⟨d.attributes[i], List.getElem?_eq_getElem hi, hnamed, fun j hj earlier hget => ?_⟩
    obtain ⟨-, rfl⟩ := List.getElem?_eq_some_iff.mp hget
    exact Bool.eq_false_iff.mpr (hearlier j hj)
  · rintro ⟨attr, hget, hnamed, hearlier⟩
    obtain ⟨hi, rfl⟩ := List.getElem?_eq_some_iff.mp hget
    refine ⟨hi, hnamed, fun j hj => Bool.eq_false_iff.mp ?_⟩
    exact hearlier j hj _ (List.getElem?_eq_getElem (Nat.lt_trans hj hi))

theorem findIdx?_eq_none_iff :
    d.findIdx? name = none ↔ ∀ attr ∈ d.attributes, attr.isNamed name = false := by
  rw [findIdx?_eq, List.findIdx?_eq_none_iff]

theorem find?_eq_some_iff {attr : Attribute} :
    d.find? name = some attr ↔
      ∃ i, d.findIdx? name = some i ∧ d.attributes[i]? = some attr := by
  rw [find?, Option.bind_eq_some_iff]

/-- The place that a name leads to is one of the attributes, so there is an attribute for it. -/
theorem find?_eq_none_iff : d.find? name = none ↔ d.findIdx? name = none := by
  rw [find?_eq, findIdx?_eq, List.find?_eq_none, List.findIdx?_eq_none_iff]
  simp only [Bool.not_eq_true]

/-! ## Kinds -/

theorem kind_view (d : Directive) : d.view.kind = d.kind := by
  cases h : d.kind <;> simp only [view, h, DirectiveView.kind]

/-- The fields of the record are the attributes of the schema. -/
theorem fields_view (d : Directive) :
    d.view.fields = d.schema.attributes.map fun known => (known.name, d.value? known.name) := by
  cases h : d.kind <;> simp only [view, schema, h] <;> rfl

/-- Of the records, just that of the directive's own kind can be had. -/
theorem views_eq (d : Directive) : d.views = [d.view] := by
  cases h : d.kind <;>
    simp [views, view, h, AssemblyView.of?, ImportView.of?, IncludeView.of?, OutputView.of?,
      ParameterView.of?, TemplateView.of?, CustomView.of?]

/-- What the directive says of its attributes when it is asked by name, and by kind. -/
structure AnswersByName (d : Directive) : Prop where
  /-- A name leads to the least place whose attribute has it, in any case of letters. -/
  least : ∀ name i, d.findIdx? name = some i ↔
    ∃ attr, d.attributes[i]? = some attr ∧ sameLetters attr.name.text name = true ∧
      ∀ j < i, ∀ earlier, d.attributes[j]? = some earlier →
        sameLetters earlier.name.text name = false
  /-- It leads nowhere if no attribute has it. -/
  nowhere : ∀ name, d.findIdx? name = none ↔
    ∀ attr ∈ d.attributes, sameLetters attr.name.text name = false
  /-- The attribute of a name is the one at that place. -/
  found : ∀ name attr, d.find? name = some attr ↔
    ∃ i, d.findIdx? name = some i ∧ d.attributes[i]? = some attr
  notFound : ∀ name, d.find? name = none ↔ d.findIdx? name = none
  /-- The value of a name is the text of the value of that attribute, or empty if it has none. -/
  value : ∀ name text, d.value? name = some text ↔
    ∃ attr, d.find? name = some attr ∧
      ((∃ token, attr.value = some token ∧ text = token.text) ∨ attr.value = none ∧ text = "")
  noValue : ∀ name, d.value? name = none ↔ d.find? name = none
  /-- The record of the directive has a field for each attribute of the schema of its kind, which
  holds the value of that attribute's name. -/
  kind : d.view.kind = d.kind
  fields : d.view.fields =
    d.kind.schema.attributes.map fun known => (known.name, d.value? known.name)
  /-- No other record can be had from the directive, and this one can. -/
  views : d.views = [d.view]

/-- **Names and kinds.** The index of a directive finds what a search of its attributes finds, and
the record of its kind holds that for each attribute of the schema. -/
theorem answersByName (d : Directive) : d.AnswersByName where
  least _ _ := findIdx?_eq_some_iff
  nowhere _ := findIdx?_eq_none_iff
  found _ _ := find?_eq_some_iff
  notFound _ := find?_eq_none_iff
  value name text := by
    rw [value?, Option.map_eq_some_iff]
    refine exists_congr fun attr => and_congr_right fun _ => ?_
    cases h : attr.value <;> simp [Attribute.valueText, h, eq_comm]
  noValue _ := Option.map_eq_none_iff
  kind := d.kind_view
  fields := d.fields_view
  views := d.views_eq

end Directive

end TextTemplate
