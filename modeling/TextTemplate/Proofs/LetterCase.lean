import Mathlib.Data.List.Forall2
import TextTemplate.Analysis
import TextTemplate.Proofs.LowerCase
import TextTemplate.Schema.Hover

/-!
# Letter case does not matter

What is made of a tree depends on its names and values only up to the case of letters. Each function
on trees is shown to give the same for a tree and for the tree in lower case: the kind of a
directive, its index of attributes, its violations (`Directive.check_lower`) and its descriptions
(`Directive.describeAt?_lower`). Only a diagnostic that echoes a name or a value shows how it was
written. So two texts that differ in the case of letters alone, having the same text in lower case,
are analysed alike (`analysedAlike_of_sameLetters`).
-/
namespace TextTemplate

@[simp]
theorem sameLetters_lowerCase (s t : String) : sameLetters s (lowerCase t) = sameLetters s t := by
  rw [sameLetters, lowerCase_lowerCase, sameLetters]

theorem isEmpty_lowerCase (s : String) : (lowerCase s).isEmpty = s.isEmpty := by
  rw [Bool.eq_iff_iff, String.isEmpty_iff, String.isEmpty_iff, ← String.toList_eq_nil_iff,
    toList_lowerCase, List.map_eq_nil_iff, String.toList_eq_nil_iff]

/-! ## Diagnostics -/

/-- The cause with what it echoes from the text in lower case. Names that come from a schema stay as
they are. -/
def Cause.lower : Cause → Cause
  | unexpectedAttribute name => unexpectedAttribute (lowerCase name)
  | duplicateAttribute name => duplicateAttribute (lowerCase name)
  | invalidAttributeValue name value => invalidAttributeValue name (lowerCase value)
  | cause => cause

theorem Cause.code_lower (cause : Cause) : cause.lower.code = cause.code := by
  cases cause <;> rfl

/-- The diagnostic with what it echoes from the text in lower case. -/
def Diagnostic.lower (d : Diagnostic) : Diagnostic :=
  { d with cause := d.cause.lower }

/-! ## Schemas -/

theorem DirectiveSchema.attribute?_lower (schema : DirectiveSchema) (name : String) :
    schema.attribute? (lowerCase name) = schema.attribute? name := by
  simp only [attribute?, sameLetters_lowerCase]

theorem AttributeSchema.value?_lower (schema : AttributeSchema) (name : String) :
    schema.value? (lowerCase name) = schema.value? name := by
  simp only [value?, sameLetters_lowerCase]

theorem AttributeSchema.accepts_lower (schema : AttributeSchema) (value : String) :
    schema.accepts (lowerCase value) = schema.accepts value := by
  rw [accepts, value?_lower, accepts]

/-! ## Attributes -/

namespace Attribute
variable (a : Attribute)

theorem span_lower : (lowering.attr a).span = a.span := by
  obtain ⟨name, equals, openQuote, value, closeQuote⟩ := a
  cases equals <;> cases openQuote <;> cases value <;> cases closeQuote <;> rfl

theorem position_lower : (lowering.attr a).position = a.position :=
  rfl

theorem valueText_lower : (lowering.attr a).valueText = lowerCase a.valueText := by
  cases h : a.value <;> simp [valueText, Recasting.attr, h, lowering, Recasting.token, lowerCase]

theorem describeAt_lower (schema : DirectiveSchema) (offset : Nat) :
    (lowering.attr a).describeAt schema offset = a.describeAt schema offset := by
  have hfilter : (a.value.map lowering.token).filter (·.span.contains offset) =
      (a.value.filter (·.span.contains offset)).map lowering.token := by
    rw [Option.filter_map]
    rfl
  have hname : (lowering.attr a).name.text = lowerCase a.name.text := rfl
  have hvalue : (lowering.attr a).value = a.value.map lowering.token := rfl
  rw [describeAt, describeAt, hname, schema.attribute?_lower, span_lower, hvalue, hfilter]
  cases schema.attribute? a.name.text with
  | none => rfl
  | some known =>
    cases a.value.filter (·.span.contains offset) with
    | none => rfl
    | some value =>
      show QuickInfo.mk ((known.value? (lowerCase value.text)).map (·.description)) _ = _
      rw [known.value?_lower]
      rfl

end Attribute

/-! ## Directives -/

namespace Directive
variable (d : Directive)

theorem kind_lower : (lowering.directive d).kind = d.kind := by
  show DirectiveKind.ofName (lowerCase d.name.text) = DirectiveKind.ofName d.name.text
  simp only [DirectiveKind.ofName, sameLetters_lowerCase]

theorem schema_lower : (lowering.directive d).schema = d.schema := by
  rw [schema, kind_lower, schema]

theorem span_lower : (lowering.directive d).span = d.span := by
  obtain ⟨start, name, attrs, stop⟩ := d
  have hlast : (attrs.map lowering.attr).getLast?.map (·.span) = attrs.getLast?.map (·.span) := by
    rw [List.getLast?_map, Option.map_map]
    congr 1
    exact funext Attribute.span_lower
  simp only [span, Recasting.directive, hlast]
  cases stop <;> rfl

theorem index_lower : (lowering.directive d).index = d.index := by
  have hname (a : Attribute) : (lowering.attr a).name.text = lowerCase a.name.text := rfl
  simp only [index, Recasting.directive, List.zipIdx_map, List.foldl_map, Prod.map, hname,
    lowerCase_lowerCase, id]

theorem findIdx?_lower (name : String) :
    (lowering.directive d).findIdx? name = d.findIdx? name := by
  rw [findIdx?, index_lower, findIdx?]

theorem findIdx?_lowerCase (name : String) : d.findIdx? (lowerCase name) = d.findIdx? name := by
  rw [findIdx?, lowerCase_lowerCase, findIdx?]

theorem value?_lower (name : String) :
    (lowering.directive d).value? name = (d.value? name).map lowerCase := by
  rw [value?, find?, findIdx?_lower, value?, find?]
  cases d.findIdx? name with
  | none => rfl
  | some i =>
    show ((d.attributes.map lowering.attr)[i]?).map _ = _
    rw [List.getElem?_map, Option.map_map, Option.bind_some, Option.map_map]
    congr 1
    exact funext Attribute.valueText_lower

theorem lacks_lower (name : String) : (lowering.directive d).lacks name = d.lacks name := by
  rw [lacks, value?_lower, lacks]
  cases d.value? name with
  | none => rfl
  | some value => exact isEmpty_lowerCase value

theorem missing_lower : (lowering.directive d).missing = d.missing.map Diagnostic.lower := by
  simp only [missing, schema_lower, lacks_lower, span_lower, List.map_map]
  rfl

theorem absentValue_lower (a : Attribute) (known : AttributeSchema) :
    absentValue (lowering.attr a) known = (absentValue a known).lower := by
  rw [absentValue, absentValue, Attribute.valueText_lower, Attribute.span_lower]
  rfl

theorem invalidValueOr_lower (a : Attribute) (known : AttributeSchema) :
    invalidValueOr absentValue (lowering.attr a) known =
      (invalidValueOr absentValue a known).lower := by
  have hvalue : (lowering.attr a).value = a.value.map lowering.token := rfl
  rw [invalidValueOr, invalidValueOr, absentValue_lower, Attribute.valueText_lower, hvalue]
  cases a.value <;> rfl

theorem violation?_lower (a : Attribute) (i : Nat) :
    (lowering.directive d).violation? (lowering.attr a) i =
      (d.violation? a i).map Diagnostic.lower := by
  have hname : (lowering.attr a).name.text = lowerCase a.name.text := rfl
  simp only [violation?, violationOr?, hname, findIdx?_lower, findIdx?_lowerCase, schema_lower,
    DirectiveSchema.attribute?_lower, Attribute.valueText_lower, AttributeSchema.accepts_lower,
    Attribute.span_lower, Attribute.position_lower, invalidValueOr_lower]
  by_cases hfirst : d.findIdx? a.name.text ≠ some i
  · rw [if_pos hfirst, if_pos hfirst]
    rfl
  · rw [if_neg hfirst, if_neg hfirst]
    cases d.schema.attribute? a.name.text with
    | none => cases d.schema.acceptsUnknown <;> rfl
    | some known =>
      show (if known.accepts a.valueText then _ else _) =
        (if known.accepts a.valueText then _ else _ : Option Diagnostic).map _
      cases known.accepts a.valueText <;> rfl

/-- The violations of a directive in lower case: the same ones, in lower case. -/
theorem check_lower : (lowering.directive d).check = d.check.map Diagnostic.lower := by
  have hcomplete : (lowering.directive d).isComplete = d.isComplete := Option.isSome_map
  rw [check_eq, check_eq, hcomplete]
  cases d.isComplete with
  | false => rfl
  | true =>
    have hattrs : (lowering.directive d).attributes = d.attributes.map lowering.attr := rfl
    rw [if_pos rfl, if_pos rfl, List.map_append, ← missing_lower, hattrs, List.zipIdx_map,
      List.filterMap_map, List.map_filterMap]
    exact congrArg _ (List.filterMap_congr fun x _ => d.violation?_lower x.1 x.2)

/-- A directive in lower case has the same descriptions. -/
theorem describeAt?_lower (offset : Nat) :
    (lowering.directive d).describeAt? offset = d.describeAt? offset := by
  have hfind : (d.attributes.map lowering.attr).find? (·.span.contains offset) =
      (d.attributes.find? (·.span.contains offset)).map lowering.attr := by
    rw [List.find?_map]
    congr 2
    exact funext fun a => congrArg (·.contains offset) a.span_lower
  have hattrs : (lowering.directive d).attributes = d.attributes.map lowering.attr := rfl
  have hstart : (lowering.directive d).start = d.start := rfl
  have hname : (lowering.directive d).name.span = d.name.span := rfl
  have hstop : (lowering.directive d).stop = d.stop := congrFun Option.map_id d.stop
  rw [describeAt?, describeAt?, span_lower, schema_lower, hstart, hname, hattrs, hfind, hstop]
  cases d.attributes.find? (·.span.contains offset) with
  | none => rfl
  | some a => simp only [Option.map_some, Attribute.describeAt_lower]

end Directive

/-! ## Templates -/

namespace Template
variable (t : Template)

theorem directives_lower : t.lower.directives = t.directives.map lowering.directive := by
  rw [directives, lower, List.filterMap_map, directives, List.map_filterMap]
  apply List.filterMap_congr
  intro block _
  cases block <;> rfl

theorem check_lower : t.lower.check = t.check.map Diagnostic.lower := by
  rw [check_eq, directives_lower, List.flatMap_map, check_eq, List.map_flatMap]
  exact List.flatMap_congr fun d _ => d.check_lower

theorem describeAt?_lower (offset : Nat) : t.lower.describeAt? offset = t.describeAt? offset := by
  rw [describeAt?, directives_lower, List.findSome?_map, describeAt?]
  congr 1
  exact funext fun d => d.describeAt?_lower offset

end Template

/-- Lists that a function does not tell apart agree, element by element, in whatever it keeps. -/
theorem forall₂_of_map_eq {α β : Type} {f : α → β} {l l' : List α} (h : l.map f = l'.map f) :
    List.Forall₂ (fun a b => f a = f b) l l' := by
  rw [← List.forall₂_eq_eq_eq, List.forall₂_map_left_iff, List.forall₂_map_right_iff] at h
  exact h

/-! ## Two texts -/

/-- What the analyses of two texts have in common if only the case of letters tells the texts
apart. -/
structure AnalysedAlike (s t : String) : Prop where
  /-- Tokens of the same kinds stand at the same places. -/
  marks : (scan s).toList.map (·.toMark) = (scan t).toList.map (·.toMark)
  /-- The trees have the same nodes at the same places, but for the case of names and values. -/
  tree : (parse s).template.lower = (parse t).template.lower
  faults : (parse s).faults = (parse t).faults
  /-- Directives are of the same kinds, and have every attribute name at the same place. -/
  directives : List.Forall₂
    (fun d e => d.kind = e.kind ∧ ∀ name, d.findIdx? name = e.findIdx? name)
    (parse s).template.directives (parse t).template.directives
  /-- Violations are the same at the same places, but for the case of what they echo. -/
  violations : List.Forall₂
    (fun v w => v.code = w.code ∧ v.span = w.span ∧ v.position = w.position ∧
      v.cause.lower = w.cause.lower)
    (parse s).template.check (parse t).template.check
  descriptions : ∀ offset,
    (parse s).template.describeAt? offset = (parse t).template.describeAt? offset

/-- The tokens of a text in lower case have the same kinds and places. -/
theorem marks_lowerCase (text : String) :
    (scan (lowerCase text)).toList.map (·.toMark) = (scan text).toList.map (·.toMark) := by
  rw [scan_lowerCase, TokenStream.toList, List.map_append, List.map_map, TokenStream.toList,
    List.map_append]
  rfl

/-- Texts that differ in the case of letters alone are analysed alike. -/
theorem analysedAlike_of_sameLetters {s t : String} (h : sameLetters s t = true) :
    AnalysedAlike s t := by
  rw [sameLetters_iff] at h
  have hparse := congrArg parse h
  rw [parse_lowerCase, parse_lowerCase, ParsedTemplate.mk.injEq] at hparse
  obtain ⟨htree, hfaults⟩ := hparse
  constructor
  case marks => rw [← marks_lowerCase s, h, marks_lowerCase]
  case tree => exact htree
  case faults => exact hfaults
  case directives =>
    have hdirectives := congrArg Template.directives htree
    rw [Template.directives_lower, Template.directives_lower] at hdirectives
    refine (forall₂_of_map_eq hdirectives).imp fun d e hde => ⟨?_, fun name => ?_⟩
    · rw [← d.kind_lower, hde, e.kind_lower]
    · rw [← d.findIdx?_lower, hde, e.findIdx?_lower]
  case violations =>
    have hcheck := congrArg Template.check htree
    rw [Template.check_lower, Template.check_lower] at hcheck
    refine (forall₂_of_map_eq hcheck).imp fun v w hvw => ?_
    obtain ⟨hcause, hspan, hposition⟩ := Diagnostic.mk.inj hvw
    refine ⟨?_, hspan, hposition, hcause⟩
    rw [Diagnostic.code, ← v.cause.code_lower, hcause, w.cause.code_lower, Diagnostic.code]
  case descriptions =>
    intro offset
    rw [← Template.describeAt?_lower, htree, Template.describeAt?_lower]

/-- The two trees differ, and `É` stays as it is: only the letters `A` to `Z` may change. -/
theorem analysedAlike_wrong_attributes :
    sameLetters "É<#@ Template Debug=\"Yes\" dEBUG=\"true\" Ém=\"\" #><# If"
        "É<#@ tEMPLATE debug=\"yES\" Debug=\"TRUE\" ÉM=\"\" #><# iF" = true ∧
      (parse "É<#@ Template Debug=\"Yes\" dEBUG=\"true\" Ém=\"\" #><# If").template ≠
        (parse "É<#@ tEMPLATE debug=\"yES\" Debug=\"TRUE\" ÉM=\"\" #><# iF").template ∧
      AnalysedAlike "É<#@ Template Debug=\"Yes\" dEBUG=\"true\" Ém=\"\" #><# If"
        "É<#@ tEMPLATE debug=\"yES\" Debug=\"TRUE\" ÉM=\"\" #><# iF" :=
  ⟨by decide +kernel, by decide +kernel, analysedAlike_of_sameLetters (by decide +kernel)⟩

end TextTemplate
