import TextTemplate.Proofs.Descriptions

/-!
# Violations and descriptions

The check of a directive and the descriptions of its bytes look up attributes and values in the same
schema, but they come there by different ways. The check goes through the attributes by the index of
the directive and tells of an attribute that stands at a place. A description starts from an offset
and finds the attribute by the spans. What is told at a byte of an attribute is told of that
attribute and of no other (`mem_check_iff_violates`), so both come down to what the schema knows:
the name of the attribute (`mem_check_unexpected_iff`, `describeAt?_name_iff`) and its value
(`mem_check_invalid_iff`, `describeAt?_value_iff`).
-/
namespace TextTemplate

section Attributes
variable {text : String} {d : Directive} (hd : d ∈ (parse text).template.directives)
  (hcomplete : d.isComplete = true) {a : Attribute} (ha : a ∈ d.attributes)
include hd

/-! ## What is told of an attribute -/

include hcomplete in
theorem mem_check_of_violates {i : Nat} (hi : d.attributes[i]? = some a) {e : Diagnostic}
    (h : Directive.Violates d.kind (d.attributes.take i) a e) :
    e ∈ (parse text).template.check := by
  have hvalue := value_isSome_of_mem_directives hd hcomplete a (List.mem_of_getElem? hi)
  have hviolation := (Directive.violates_iff hi hvalue).mp h
  exact List.mem_flatMap.mpr
    ⟨d, hd, Directive.mem_check_iff.mpr ⟨hcomplete, .inr ⟨a, i, hi, hviolation⟩⟩⟩

include ha hcomplete

/-- What is told at a byte of an attribute, other than that one is missing, is a violation of that
attribute. -/
theorem mem_check_iff_violates {offset : Nat} (ho : a.span.HasByte offset) {e : Diagnostic}
    (hoe : e.span.HasByte offset) (hcause : ∀ name, e.cause ≠ .missingAttribute name) :
    e ∈ (parse text).template.check ↔
      ∃ i, d.attributes[i]? = some a ∧
        Directive.Violates d.kind (d.attributes.take i) a e := by
  refine ⟨fun h => ?_, fun ⟨i, hi, h⟩ => mem_check_of_violates hd hcomplete hi h⟩
  obtain ⟨d', hd', he⟩ := List.mem_flatMap.mp h
  have hvalues := value_isSome_of_mem_directives hd'
  have hin := inOrder_directive hd'
  have hod' := hoe.of_containsSpan (Directive.containsSpan_of_mem_check hvalues hin he)
  obtain rfl := eq_of_contains_directive hd hd' (hasByte_of_mem_attributes hd ha ho) hod'.contains
  obtain ⟨-, hmissing | ⟨b, i, hi, hviolation⟩⟩ := Directive.mem_check_iff.mp he
  · obtain ⟨known, -, rfl⟩ := List.mem_map.mp hmissing
    exact absurd rfl (hcause known.displayName)
  · have hb := List.mem_of_getElem? hi
    have hbounds := Directive.bounds_of_violation hvalues hin hcomplete hi hviolation
    have hob : b.span.HasByte offset := hoe.of_containsSpan (Span.containsSpan_iff.mpr hbounds)
    obtain rfl := (wellPlaced_of_mem_directives hd).eq_of_contains_attribute ha hb ho hob.contains
    exact ⟨i, hi, (Directive.violates_iff hi (hvalues hcomplete b hb)).mpr hviolation⟩

/-- An attribute is told of as a duplicate if one in front of it has the name. -/
theorem mem_check_duplicate_iff {offset : Nat} (ho : a.span.HasByte offset) :
    (⟨.duplicateAttribute a.name.text, a.span, a.position⟩ : Diagnostic) ∈
        (parse text).template.check ↔
      ∃ i, d.attributes[i]? = some a ∧
        ∃ b ∈ d.attributes.take i, b.isNamed a.name.text = true := by
  rw [mem_check_iff_violates hd hcomplete ha ho ho (by simp)]
  constructor
  · rintro ⟨i, hi, h⟩
    cases h with
    | duplicate hb hname => exact ⟨i, hi, _, hb, hname⟩
  · rintro ⟨i, hi, b, hb, hname⟩
    exact ⟨i, hi, .duplicate hb hname⟩

variable (hfirst : (⟨.duplicateAttribute a.name.text, a.span, a.position⟩ : Diagnostic) ∉
  (parse text).template.check)
include hfirst

omit ha in
/-- An attribute that is not told of as a duplicate is the first one of its name. -/
theorem not_isNamed_of_not_duplicate {i : Nat} (hi : d.attributes[i]? = some a) :
    ∀ b ∈ d.attributes.take i, ¬ b.isNamed a.name.text = true := fun _ hb hname =>
  hfirst (mem_check_of_violates hd hcomplete hi (.duplicate hb hname))

/-! ## Names -/

/-- The attribute is told of as unexpected if the schema does not know it. -/
theorem mem_check_unexpected_iff (hkind : d.kind ≠ .custom) {offset : Nat}
    (ho : a.span.HasByte offset) :
    (⟨.unexpectedAttribute a.name.text, a.span, a.position⟩ : Diagnostic) ∈
        (parse text).template.check ↔ ∀ known, ¬ d.schema.Knows a.name.text known := by
  rw [mem_check_iff_violates hd hcomplete ha ho ho (by simp)]
  constructor
  · rintro ⟨i, -, h⟩ known ⟨hmem, hname⟩
    cases h with
    | unexpected _ hunknown => exact hunknown known hmem hname
  · intro hunknown
    obtain ⟨i, hi⟩ := List.mem_iff_getElem?.mp ha
    exact ⟨i, hi, .unexpected (not_isNamed_of_not_duplicate hd hcomplete hfirst hi)
      (fun known hmem hname => hunknown known ⟨hmem, hname⟩) hkind⟩

omit hcomplete hfirst in
/-- Its name shows nothing if the schema does not know it. -/
theorem describeAt?_name_iff {offset : Nat} (ho : a.name.span.HasByte offset) :
    (parse text).template.describeAt? offset = some (.nothing a.span) ↔
      ∀ known, ¬ d.schema.Knows a.name.text known := by
  constructor
  · intro hnothing known hknown
    have hshown := (describesAttribute hd ha hknown).of_signs (.capture a.name)
      (by simp [Attribute.signs]) ho
    rw [hnothing] at hshown
    exact absurd hshown (by simp [QuickInfo.nothing])
  · intro hunknown
    exact describeAt?_of_unknown hd ha hunknown a.name_mem_children ho

/-! ## Values -/

section Values
variable {known : AttributeSchema} (hknown : d.schema.Knows a.name.text known) {value : Token}
  (hvalue : a.value = some value) {offset : Nat} (ho : value.span.HasByte offset)
include hknown hvalue ho

/-- The value is told of as invalid if it is not one of those that the attribute knows. -/
theorem mem_check_invalid_iff (hvalues : known.values ≠ []) :
    (∃ name given, (⟨.invalidAttributeValue name given, value.span, value.position⟩ : Diagnostic) ∈
        (parse text).template.check) ↔ ∀ v, ¬ known.Knows value.text v := by
  have hoa := (wellPlaced_of_mem_attributes hd ha).hasByte_of_mem_children
    (Attribute.value_mem_children hvalue) ho
  have hviolates : ∀ {i e}, d.attributes[i]? = some a →
      (Directive.Violates d.kind (d.attributes.take i) a e ↔ known.accepts value.text = false ∧
        e = ⟨.invalidAttributeValue known.displayName value.text, value.span, value.position⟩) :=
    fun hi => Directive.violates_iff_of_known
      (not_isNamed_of_not_duplicate hd hcomplete hfirst hi) hknown.1 hknown.2 hvalue
  constructor
  · rintro ⟨name, given, h⟩ v ⟨hmem, hname⟩
    obtain ⟨i, hi, h⟩ := (mem_check_iff_violates hd hcomplete ha hoa ho (by simp)).mp h
    exact (Directive.accepts_eq_false_iff.mp ((hviolates hi).mp h).1).2 v hmem hname
  · intro hunknown
    obtain ⟨i, hi⟩ := List.mem_iff_getElem?.mp ha
    have haccepts : known.accepts value.text = false :=
      Directive.accepts_eq_false_iff.mpr ⟨hvalues, fun v hmem hname => hunknown v ⟨hmem, hname⟩⟩
    exact ⟨_, _, mem_check_of_violates hd hcomplete hi ((hviolates hi).mpr ⟨haccepts, rfl⟩)⟩

omit hcomplete hfirst in
theorem not_knows_of_nothing {span : Span}
    (h : (parse text).template.describeAt? offset = some (.nothing span)) (v : KnownValue) :
    ¬ known.Knows value.text v := by
  intro hv
  have hattribute : (parse text).template.DescribesAttribute a known offset :=
    describesAttribute hd ha hknown
  have hshown := hattribute.of_knownValue value hvalue ho v hv
  rw [h] at hshown
  exact absurd hshown (by simp [QuickInfo.nothing])

omit hcomplete hfirst in
/-- Its bytes show nothing if it is not one of those. -/
theorem describeAt?_value_iff :
    (parse text).template.describeAt? offset = some (.nothing value.span) ↔
      ∀ v, ¬ known.Knows value.text v :=
  ⟨not_knows_of_nothing hd ha hknown hvalue ho,
    (describesAttribute hd ha hknown).of_unknownValue value hvalue ho⟩

end Values

end Attributes

/-! ## Agreement -/

/-- What is told of an attribute and what is shown at its bytes agree. -/
structure AgreesOn (text : String) (d : Directive) (a : Attribute) : Prop where
  name_hasByte : byteLength text.toList < 2 ^ 32 → a.name.span.HasByte a.name.span.start
  unexpected_iff : d.kind ≠ .custom → ∀ offset, a.name.span.HasByte offset →
    ((⟨.unexpectedAttribute a.name.text, a.span, a.position⟩ : Diagnostic) ∈
        (parse text).template.check ↔
      (parse text).template.describeAt? offset = some (.nothing a.span))
  /-- All bytes of a value show the same. -/
  invalid_iff : ∀ known, d.schema.Knows a.name.text known → known.values ≠ [] →
    ∀ value ∈ a.value, ∀ offset, value.span.HasByte offset →
    ((∃ name given, (⟨.invalidAttributeValue name given, value.span, value.position⟩ : Diagnostic) ∈
        (parse text).template.check) ↔
      (parse text).template.describeAt? offset = some (.nothing value.span))
  invalid_iff_forall : byteLength text.toList < 2 ^ 32 →
    ∀ known, d.schema.Knows a.name.text known → known.values ≠ [] →
    ∀ value ∈ a.value, value.text ≠ "" →
    ((∃ name given, (⟨.invalidAttributeValue name given, value.span, value.position⟩ : Diagnostic) ∈
        (parse text).template.check) ↔
      ∀ offset, value.span.HasByte offset →
        ∃ span, (parse text).template.describeAt? offset = some (.nothing span))

/-- **Agreement.** An attribute of a directive with an end, the first of its name, is unexpected if
its name shows nothing, and its value is invalid if the value shows nothing. -/
theorem check_agrees_describeAt? (text : String) {d : Directive}
    (hd : d ∈ (parse text).template.directives) (hcomplete : d.isComplete = true) {a : Attribute}
    (ha : a ∈ d.attributes)
    (hfirst : (⟨.duplicateAttribute a.name.text, a.span, a.position⟩ : Diagnostic) ∉
      (parse text).template.check) : AgreesOn text d a := by
  have hplaced := wellPlaced_of_mem_attributes hd ha
  have hinvalid : ∀ known, d.schema.Knows a.name.text known → known.values ≠ [] →
      ∀ value ∈ a.value, ∀ offset, value.span.HasByte offset →
      ((∃ name given, (⟨.invalidAttributeValue name given, value.span, value.position⟩ :
          Diagnostic) ∈ (parse text).template.check) ↔
        (parse text).template.describeAt? offset = some (.nothing value.span)) := by
    intro known hknown hvalues value hvalue offset ho
    rw [mem_check_invalid_iff hd hcomplete ha hfirst hknown hvalue ho hvalues,
      describeAt?_value_iff hd ha hknown hvalue ho]
  -- within the bounds of spans there is a byte to look at
  have hstart : byteLength text.toList < 2 ^ 32 → ∀ {t : Token},
      Node.capture t ∈ (Node.attr a).children → t.span.Wide → t.span.HasByte t.span.start := by
    intro hlen t ht hwide
    have hmax : byteLength text.toList ≤ maxOffset := Nat.le_of_lt_succ hlen
    have hlt := start_lt_of_mem_scanChars hmax (mem_scan_of_mem_attr hd ha ht)
    exact ⟨Nat.le_refl _, hwide (Nat.lt_of_lt_of_le hlt hmax)⟩
  refine ⟨fun hlen => ?_, fun hkind offset ho => ?_, hinvalid,
    fun hlen known hknown hvalues value hvalue hne => ?_⟩
  · have hwide : a.name.span.Wide :=
      wide_of_mem_scan (mem_scan_of_mem_attr hd ha a.name_mem_children)
        (by simp [((kindsFit_of_mem_directives hd).attributes a ha).name])
    exact hstart hlen a.name_mem_children hwide
  · have hoa := hplaced.hasByte_of_mem_children a.name_mem_children ho
    rw [mem_check_unexpected_iff hd hcomplete ha hfirst hkind hoa, describeAt?_name_iff hd ha ho]
  · refine ⟨fun h offset ho => ⟨_, (hinvalid known hknown hvalues value hvalue offset ho).mp h⟩,
      fun h => ?_⟩
    have hbyte := hstart hlen (Attribute.value_mem_children hvalue)
      (hplaced.wide_value value hvalue hne)
    obtain ⟨span, hnothing⟩ := h _ hbyte
    exact (mem_check_invalid_iff hd hcomplete ha hfirst hknown hvalue hbyte hvalues).mpr
      (not_knows_of_nothing hd ha hknown hvalue hbyte hnothing)

/-- A value that is not known, behind another attribute. -/
theorem check_agrees_describeAt?_unknown_value :
    let text := "<#@ template X=\"1\" debug=\"on\" #>"
    let tree := (parse text).template
    (tree.describeAt? 26).map (·.description) = some none ∧
      ∃ d ∈ tree.directives, d.isComplete = true ∧ ∃ a ∈ d.attributes, a.name.text = "debug" ∧
        (⟨.duplicateAttribute a.name.text, a.span, a.position⟩ : Diagnostic) ∉ tree.check ∧
        AgreesOn text d a := by
  intro text tree
  obtain ⟨d, hd, hcomplete, a, ha, hname, ho, hnew⟩ :
      ∃ d ∈ tree.directives, d.isComplete = true ∧ ∃ a ∈ d.attributes, a.name.text = "debug" ∧
        (a.span.start ≤ 26 ∧ 26 < a.span.stop) ∧
        ∀ i < d.attributes.length, d.attributes[i]? = some a →
          ∀ b ∈ d.attributes.take i, ¬ b.isNamed a.name.text = true := by
    decide +kernel
  have hfirst : (⟨.duplicateAttribute a.name.text, a.span, a.position⟩ : Diagnostic) ∉
      tree.check := by
    rw [mem_check_duplicate_iff hd hcomplete ha ho]
    rintro ⟨i, hi, b, hb, hnamed⟩
    exact hnew i (List.getElem?_eq_some_iff.mp hi).1 hi b hb hnamed
  exact ⟨by decide +kernel, d, hd, hcomplete, a, ha, hname, hfirst,
    check_agrees_describeAt? text hd hcomplete ha hfirst⟩

end TextTemplate
