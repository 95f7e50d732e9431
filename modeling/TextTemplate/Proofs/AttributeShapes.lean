import TextTemplate.Proofs.DirectiveParts
import TextTemplate.Proofs.SchemaViolations

/-!
# Attributes that break off

Whatever is wrong with a text, the attributes in its tree are written in the order of the grammar as
far as they were written (`Attribute.Begun`). An attribute that breaks off ends its directive: it is
the last one, and the directive has no end (`isComplete_of_mem_dropLast`, `attribute_shapes`).

The check of schemas has to say where an unknown value is that is not there at all. Since it only
looks at directives with an end, it never comes to that, so whatever it says there makes no
difference (`Template.checkOr`).
-/
namespace TextTemplate

section Reading
variable {next : Token} {tokens : List Token}

theorem isComplete_of_mem_dropLast_readAttributes :
    ∀ a ∈ (readAttributes next tokens).1.dropLast, a.isComplete := by
  fun_induction readAttributes next tokens with
  | case3 token tokens hkind attr rest hattr attrs ending hattrs ih =>
    rw [hattrs] at ih
    intro a ha
    cases attrs with
    | nil => simp at ha
    | cons second attrs =>
      rw [List.dropLast_cons_cons] at ha
      rcases List.mem_cons.mp ha with rfl | ha
      · exact (complete_of_readAttribute hattr).1
      · exact ih a ha
  | _ => simp

/-- Only the last attribute of a directive can break off. -/
theorem isComplete_of_mem_dropLast {text : String} {d : Directive}
    (hd : d ∈ (parse text).template.directives) : ∀ a ∈ d.attributes.dropLast, a.isComplete := by
  obtain ⟨-, segment, -, hsegment⟩ := ParsedTemplate.exists_segment_of_mem_directives hd
  obtain ⟨-, -, tokens, -, -, hattrs⟩ := Segment.of_read_directive hsegment
  have hcomplete : ∀ a ∈ (readAttributes segment.next tokens).1.dropLast, a.isComplete :=
    isComplete_of_mem_dropLast_readAttributes
  rcases hattrs with ⟨fault, hattrs, -⟩ | ⟨stop, stray, hattrs, -⟩ <;> rwa [hattrs] at hcomplete

/-- In a directive with an end no attribute breaks off. -/
theorem complete_of_mem_directives {text : String} {d : Directive}
    (hd : d ∈ (parse text).template.directives) (hcomplete : d.isComplete = true) :
    ∀ a ∈ d.attributes, a.isComplete ∧ a.value.isSome := by
  obtain ⟨-, segment, -, hsegment⟩ := ParsedTemplate.exists_segment_of_mem_directives hd
  exact segment.complete_attributes hsegment hcomplete

end Reading

/-! ## The check without values -/

namespace Directive
variable {absent absent' : Attribute → AttributeSchema → Diagnostic} {d : Directive} {a : Attribute}

theorem invalidValueOr_congr (h : a.value.isSome) :
    invalidValueOr absent a = invalidValueOr absent' a := by
  obtain ⟨value, hvalue⟩ := Option.isSome_iff_exists.mp h
  funext known
  rw [invalidValueOr, invalidValueOr, hvalue]

theorem violationOr?_congr (h : a.value.isSome) (i : Nat) :
    d.violationOr? absent a i = d.violationOr? absent' a i := by
  rw [violationOr?, violationOr?, invalidValueOr_congr h]

theorem checkOr_congr (h : d.isComplete = true → ∀ a ∈ d.attributes, a.value.isSome) :
    d.checkOr absent = d.checkOr absent' := by
  rw [checkOr, checkOr]
  by_cases hd : d.isComplete = true
  · rw [if_pos hd, if_pos hd]
    refine congrArg (d.missing ++ ·) (List.filterMap_congr fun p hp => ?_)
    exact violationOr?_congr (h hd p.1 (List.fst_mem_of_mem_zipIdx hp)) p.2
  · rw [if_neg hd, if_neg hd]

end Directive

/-- **Attributes that break off.** The attributes of every directive are begun as the grammar has
them; all but the last one are complete, and in a directive with an end that one is complete too and
has a value. So nothing is ever said of an attribute without value. -/
theorem attribute_shapes (text : String) :
    (∀ d ∈ (parse text).template.directives,
      (∀ a ∈ d.attributes, a.Begun) ∧ (∀ a ∈ d.attributes.dropLast, a.isComplete) ∧
        (d.isComplete → ∀ a ∈ d.attributes, a.isComplete ∧ a.value.isSome)) ∧
      ∀ absent, (parse text).template.checkOr absent = (parse text).template.check := by
  refine ⟨fun d hd => ?_, fun absent => ?_⟩
  · exact ⟨begun_of_mem_directives hd, isComplete_of_mem_dropLast hd, complete_of_mem_directives hd⟩
  · exact List.flatMap_congr fun d hd =>
      Directive.checkOr_congr (value_isSome_of_mem_directives hd)

/-- One directive has an end; the second attribute of the other one breaks off after its equals
sign. -/
theorem attribute_shapes_broken_last :
    let text := "<#@ template debug=\"\" #><#@ x a=\"1\" b="
    ∃ (whole broken : Directive) (a b c : Attribute),
      (parse text).template.directives = [whole, broken] ∧ whole.attributes = [a] ∧
        broken.attributes = [b, c] ∧ whole.isComplete ∧ c.isComplete = false ∧
        (a.isComplete ∧ a.value.isSome) ∧ b.isComplete ∧ c.Begun ∧
        ∀ absent, (parse text).template.checkOr absent = (parse text).template.check := by
  intro text
  obtain ⟨whole, broken, hdirectives⟩ :
      ∃ whole broken, (parse text).template.directives = [whole, broken] :=
    List.length_eq_two.mp (by decide +kernel)
  have hparts : (parse text).template.directives.map (fun d =>
      (d.isComplete, d.attributes.map (·.isComplete))) =
        [(true, [true]), (false, [true, false])] := by decide +kernel
  rw [hdirectives] at hparts
  simp only [List.map_cons, List.map_nil, List.cons.injEq, Prod.mk.injEq, and_true] at hparts
  obtain ⟨⟨hwhole, hone⟩, -, htwo⟩ := hparts
  obtain ⟨a, ha, -⟩ := List.map_eq_singleton_iff.mp hone
  obtain ⟨b, rest, hbroken, -, hrest⟩ := List.map_eq_cons_iff.mp htwo
  obtain ⟨c, rfl, hc⟩ := List.map_eq_singleton_iff.mp hrest
  obtain ⟨hshapes, hcheck⟩ := attribute_shapes text
  obtain ⟨-, -, hcomplete⟩ := hshapes whole (by simp [hdirectives])
  obtain ⟨hbegun, hlast, -⟩ := hshapes broken (by simp [hdirectives])
  exact ⟨whole, broken, a, b, c, hdirectives, ha, hbroken, hwhole, hc,
    hcomplete hwhole a (by simp [ha]), hlast b (by simp [hbroken]), hbegun c (by simp [hbroken]),
    hcheck⟩

end TextTemplate
