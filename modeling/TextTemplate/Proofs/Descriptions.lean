import TextTemplate.Proofs.DirectiveParts
import TextTemplate.Schema.Hover

/-!
# What descriptions tell

A directive looks for the part that an offset belongs to by asking the spans of its parts in turn
whether they contain the offset. All parts but empty values contain their bytes and nothing else, so
for a byte of a part the search comes to that part. An empty value contains the offset at which it
stands, which is a byte of the quote behind it; the search comes to the value there.

`describeAt?_token` states for all bytes of the tokens of a directive what is shown, and
`describeAt?_blank` for all bytes in between. Neither depends on what else the text holds, nor on
whether the directive has its end.
-/
namespace TextTemplate

/-! ## What schemas know -/

/-- The schema has an attribute of the name, in whatever case of letters. -/
def DirectiveSchema.Knows (schema : DirectiveSchema) (name : String) (known : AttributeSchema) :
    Prop :=
  known ∈ schema.attributes ∧ sameLetters known.name name = true

/-- The attribute has a known value of the name, in whatever case of letters. -/
def AttributeSchema.Knows (schema : AttributeSchema) (name : String) (known : KnownValue) : Prop :=
  known ∈ schema.values ∧ sameLetters known.displayName name = true

section Schemas
variable {kind : DirectiveKind} {name : String} {known : AttributeSchema}

theorem DirectiveSchema.knows_iff :
    kind.schema.Knows name known ↔ kind.schema.attribute? name = some known :=
  DirectiveKind.attribute?_eq_some_iff.symm

theorem DirectiveSchema.forall_not_knows_iff :
    (∀ known, ¬ kind.schema.Knows name known) ↔ kind.schema.attribute? name = none := by
  simp only [knows_iff, Option.eq_none_iff_forall_ne_some, ne_eq]

variable (h : known ∈ kind.schema.attributes)
include h

theorem AttributeSchema.knows_iff {v : KnownValue} :
    known.Knows name v ↔ known.value? name = some v :=
  (DirectiveKind.value?_eq_some_iff h).symm

theorem AttributeSchema.forall_not_knows_iff :
    (∀ v, ¬ known.Knows name v) ↔ known.value? name = none := by
  simp only [knows_iff h, Option.eq_none_iff_forall_ne_some, ne_eq]

end Schemas

/-! ## Attributes -/

namespace Attribute
variable {a : Attribute} {kind : DirectiveKind} {known : AttributeSchema} {value : Token}
  {offset : Nat}

/-- The name, the sign `=` and the opening quote, as far as they are there. -/
def signs (a : Attribute) : List Node :=
  [.capture a.name] ++ (a.equals.map .token).toList ++ (a.openQuote.map .token).toList

theorem children_eq (a : Attribute) : (Node.attr a).children =
    a.signs ++ (a.value.map .capture).toList ++ (a.closeQuote.map .token).toList := rfl

theorem mem_children_of_mem_signs {a : Attribute} {part : Node} (h : part ∈ a.signs) :
    part ∈ (Node.attr a).children := by
  rw [children_eq, List.append_assoc]
  exact List.mem_append_left _ h

theorem describeAt_of_unknown (h : ∀ known, ¬ kind.schema.Knows a.name.text known) :
    a.describeAt kind.schema offset = .nothing a.span := by
  rw [describeAt, DirectiveSchema.forall_not_knows_iff.mp h]

section Known
variable (h : kind.schema.Knows a.name.text known)
include h

/-- Where the value does not contain the offset, the attribute is described. -/
theorem describeAt_of_not_value
    (hcontains : ∀ value ∈ a.value, value.span.contains offset = false) :
    a.describeAt kind.schema offset = ⟨some known.description, a.span⟩ := by
  have hnone : a.value.filter (·.span.contains offset) = none := by
    simpa [Option.filter_eq_none_iff] using hcontains
  rw [describeAt, DirectiveSchema.knows_iff.mp h, hnone]

section Value
variable (hvalue : a.value = some value) (hcontains : value.span.contains offset = true)
include hvalue hcontains

/-- Where it contains the offset, the value is described. -/
theorem describeAt_of_value : a.describeAt kind.schema offset =
    ⟨(known.value? value.text).map (·.description), value.span⟩ := by
  have hsome : a.value.filter (·.span.contains offset) = some value := by
    rw [hvalue]
    exact if_pos hcontains
  rw [describeAt, DirectiveSchema.knows_iff.mp h, hsome]

theorem describeAt_of_knownValue {v : KnownValue} (hv : known.Knows value.text v) :
    a.describeAt kind.schema offset = ⟨some v.description, value.span⟩ := by
  rw [describeAt_of_value h hvalue hcontains, (AttributeSchema.knows_iff h.1).mp hv]
  rfl

theorem describeAt_of_unknownValue (hnone : ∀ v, ¬ known.Knows value.text v) :
    a.describeAt kind.schema offset = .nothing value.span := by
  rw [describeAt_of_value h hvalue hcontains, (AttributeSchema.forall_not_knows_iff h.1).mp hnone]
  rfl

end Value

end Known

namespace WellPlaced
variable (h : a.WellPlaced)
include h

theorem hasByte_of_mem_children {part : Node} (hpart : part ∈ (Node.attr a).children)
    (ho : part.span.HasByte offset) : a.span.HasByte offset :=
  ho.of_containsSpan (h.spans.containsSpan h.pairwise hpart)

variable (hvalue : a.value = some value)
include hvalue

/-- The parts in front of the value do not share a byte with it. -/
theorem not_contains_value_of_signs {part : Node} (hpart : part ∈ a.signs)
    (ho : part.span.HasByte offset) : value.span.contains offset = false := by
  have hfront : (a.signs ++ (a.value.map Node.capture).toList).Pairwise Node.Before :=
    (List.pairwise_append.mp h.pairwise).1
  have hbefore : part.Before (.capture value) :=
    (List.pairwise_append.mp hfront).2.2 part hpart _ (by simp [hvalue])
  exact hbefore.contains_right ho

/-- The value contains its bytes and, if it is empty, the offset where it stands. -/
theorem contains_value_iff (hoffset : offset < maxOffset) :
    value.span.contains offset = true ↔
      value.span.HasByte offset ∨ value.text = "" ∧ offset = value.span.start := by
  by_cases htext : value.text = ""
  · have hempty := h.isEmpty_value value hvalue htext
    have hstop := Span.stop_eq_start_of_isEmpty hempty
    rw [Span.contains, hempty, if_pos rfl, beq_iff_eq, Span.HasByte]
    refine ⟨fun ho => .inr ⟨htext, ho⟩, ?_⟩
    rintro (ho | ⟨-, ho⟩)
    · omega
    · exact ho
  · rw [(h.wide_value value hvalue htext).contains_iff (.inl hoffset)]
    simp [htext]

/-- The closing quote is the byte at the offset that an empty value contains. No other value
contains it. -/
theorem contains_value_of_closeQuote {quote : Mark} (hquote : a.closeQuote = some quote)
    (ho : quote.span.HasByte offset) : value.span.contains offset = true ↔ value.text = "" := by
  obtain ⟨hstart, hstop⟩ := h.closeQuote value hvalue quote hquote
  rw [h.contains_value_iff hvalue ho.lt_maxOffset]
  simp only [Span.HasByte] at ho ⊢
  refine ⟨?_, fun htext => .inr ⟨htext, ?_⟩⟩
  · rintro (hbyte | ⟨htext, -⟩)
    · omega
    · exact htext
  · have hempty := Span.stop_eq_start_of_isEmpty (h.isEmpty_value value hvalue htext)
    omega

/-- A byte of the attribute that belongs to none of its parts is not where an empty value stands,
since that is where the closing quote or the end of the attribute is. -/
theorem not_contains_value_of_between (ho : a.span.HasByte offset)
    (hbetween : ∀ part ∈ (Node.attr a).children, ¬ part.span.HasByte offset) :
    value.span.contains offset = false := by
  have hbyte : ¬ value.span.HasByte offset := hbetween _ (value_mem_children hvalue)
  rw [← Bool.not_eq_true, h.contains_value_iff hvalue ho.lt_maxOffset]
  rintro (hvalue' | ⟨htext, hoffset⟩)
  · exact hbyte hvalue'
  have hempty := Span.stop_eq_start_of_isEmpty (h.isEmpty_value value hvalue htext)
  cases hquote : a.closeQuote with
  | none =>
    have hlast : (Node.attr a).children.getLast? = some (.capture value) := by
      simp [children_eq, hvalue, hquote]
    have hstop := h.spans.stop_eq
    rw [hlast] at hstop
    have hend : value.span.stop = a.span.stop := Option.some.inj hstop
    have := ho.2
    omega
  | some quote =>
    obtain ⟨hstart, -⟩ := h.closeQuote value hvalue quote hquote
    have hwide := h.wide_closeQuote quote hquote
    have hmax := ho.lt_maxOffset
    refine hbetween _ (closeQuote_mem_children hquote) ⟨?_, ?_⟩
    · exact Nat.le_of_eq (by rw [hoffset, ← hempty, ← hstart]; rfl)
    · have hquote_start : quote.span.start = offset := by rw [hstart, hempty, hoffset]
      exact hquote_start ▸ hwide (hquote_start ▸ hmax)

end WellPlaced

end Attribute

/-! ## Directives -/

namespace Directive
variable {d : Directive} {offset : Nat}

/-- A directive answers for the offsets of its span and for no others. -/
theorem isSome_describeAt? (d : Directive) (offset : Nat) :
    (d.describeAt? offset).isSome = d.span.contains offset := by
  rw [describeAt?]
  cases d.span.contains offset with
  | false => rfl
  | true =>
    rw [Bool.not_true, if_neg Bool.false_ne_true]
    repeat' split
    all_goals rfl

namespace WellPlaced
variable (h : d.WellPlaced)
include h

theorem hasByte_of_mem_children {part : Node} (hpart : part ∈ (Node.directive d).children)
    (ho : part.span.HasByte offset) : d.span.HasByte offset :=
  ho.of_containsSpan (h.spans.containsSpan h.pairwise hpart)

/-- The start and the name come before all other parts. -/
theorem before_of_mem {part : Node}
    (hpart : part ∈ d.attributes.map Node.attr ++ (d.stop.map Node.token).toList) :
    (Node.token d.start).Before part ∧ (Node.capture d.name).Before part := by
  have hpairs := h.pairwise
  rw [Node.children, List.append_assoc] at hpairs
  have hbefore := (List.pairwise_append.mp hpairs).2.2
  exact ⟨hbefore _ (by simp) part hpart, hbefore _ (by simp) part hpart⟩

theorem describeAt?_head
    (ho : d.start.span.HasByte offset ∨ d.name.span.HasByte offset) :
    d.describeAt? offset = some ⟨some d.schema.description, d.name.span⟩ := by
  have hhead : (d.start.span.contains offset || d.name.span.contains offset) = true := by
    rw [Bool.or_eq_true]
    exact ho.imp Span.HasByte.contains Span.HasByte.contains
  have hbyte : d.span.HasByte offset := by
    rcases ho with ho | ho
    · exact h.hasByte_of_mem_children d.start_mem_children ho
    · exact h.hasByte_of_mem_children d.name_mem_children ho
  rw [describeAt?, hbyte.contains, hhead]
  rfl

/-- Behind the name the search goes on with the end and the attributes. -/
theorem describeAt?_tail {part : Node}
    (hpart : part ∈ d.attributes.map Node.attr ++ (d.stop.map Node.token).toList)
    (ho : part.span.HasByte offset) :
    d.describeAt? offset =
      match d.stop.filter (·.span.contains offset) with
      | some stop => some ⟨some d.schema.description, stop.span⟩
      | none =>
        match d.attributes.find? (·.span.contains offset) with
        | some attr => some (attr.describeAt d.schema offset)
        | none => some (.nothing (.emptyAt offset)) := by
  have hmem : part ∈ (Node.directive d).children := by
    rw [Node.children, List.append_assoc]
    exact List.mem_append_right _ hpart
  have hstart : d.start.span.contains offset = false :=
    (h.before_of_mem hpart).1.contains_left (h.wide _ d.start_mem_children) ho
  have hname : d.name.span.contains offset = false :=
    (h.before_of_mem hpart).2.contains_left (h.wide _ d.name_mem_children) ho
  rw [describeAt?, (h.hasByte_of_mem_children hmem ho).contains, hstart, hname]
  rfl

theorem describeAt?_stop {stop : Mark} (hstop : d.stop = some stop)
    (ho : stop.span.HasByte offset) :
    d.describeAt? offset = some ⟨some d.schema.description, stop.span⟩ := by
  have hsome : d.stop.filter (·.span.contains offset) = some stop := by
    rw [hstop]
    exact if_pos ho.contains
  have hmem : Node.token stop ∈ d.attributes.map Node.attr ++ (d.stop.map Node.token).toList := by
    simp [hstop]
  rw [h.describeAt?_tail hmem ho, hsome]

/-- No two attributes have a byte in common. -/
theorem eq_of_contains_attribute {a b : Attribute} (ha : a ∈ d.attributes)
    (hb : b ∈ d.attributes) (ho : a.span.HasByte offset) (hob : b.span.contains offset = true) :
    b = a := by
  have hwide := h.wide _ (attr_mem_children hb)
  exact Node.attr.inj ((Node.contains_iff_eq h.pairwise hwide (attr_mem_children ha)
    (attr_mem_children hb) ho).mp hob)

theorem describeAt?_attribute {a : Attribute} (ha : a ∈ d.attributes)
    (ho : a.span.HasByte offset) :
    d.describeAt? offset = some (a.describeAt d.schema offset) := by
  have hstop : d.stop.filter (·.span.contains offset) = none := by
    rw [Option.filter_eq_none_iff]
    intro stop hstop
    have hbefore : (Node.attr a).Before (.token stop) :=
      (List.pairwise_append.mp h.pairwise).2.2 _ (by simp [ha]) _ (by simp [hstop])
    exact Bool.not_eq_true _ ▸ hbefore.contains_right ho
  have hfind : d.attributes.find? (·.span.contains offset) = some a :=
    find?_eq_some_of_unique ha ho.contains fun b hb => h.eq_of_contains_attribute ha hb ho
  have hmem : Node.attr a ∈ d.attributes.map Node.attr ++ (d.stop.map Node.token).toList := by
    simp [ha]
  rw [h.describeAt?_tail hmem ho, hstop, hfind]

/-- A byte of the directive that belongs to none of its parts shows nothing. -/
theorem describeAt?_between (ho : d.span.HasByte offset)
    (hbetween : ∀ part ∈ (Node.directive d).children, ¬ part.span.HasByte offset) :
    d.describeAt? offset = some (.nothing (.emptyAt offset)) := by
  have hnot : ∀ part ∈ (Node.directive d).children, part.span.contains offset = false := by
    intro part hpart
    rw [← Bool.not_eq_true, (h.wide part hpart).contains_iff (.inl ho.lt_maxOffset)]
    exact hbetween part hpart
  have hstart : d.start.span.contains offset = false := hnot _ d.start_mem_children
  have hname : d.name.span.contains offset = false := hnot _ d.name_mem_children
  have hstop : d.stop.filter (·.span.contains offset) = none := by
    rw [Option.filter_eq_none_iff]
    intro stop hstop
    exact Bool.not_eq_true _ ▸ hnot _ (stop_mem_children hstop)
  have hfind : d.attributes.find? (·.span.contains offset) = none := by
    rw [List.find?_eq_none]
    intro a ha
    exact Bool.not_eq_true _ ▸ hnot _ (attr_mem_children ha)
  rw [describeAt?, ho.contains, hstart, hname, hstop, hfind]
  rfl

end WellPlaced

end Directive

/-! ## Templates -/

/-- The directive that contains the offset is asked. -/
theorem Template.describeAt?_eq_find? (t : Template) (offset : Nat) :
    t.describeAt? offset =
      (t.directives.find? (·.span.contains offset)).bind (·.describeAt? offset) := by
  rw [describeAt?]
  induction t.directives with
  | nil => rfl
  | cons d ds ih =>
    have hsome := d.isSome_describeAt? offset
    rw [List.findSome?_cons, List.find?_cons]
    cases hcontains : d.span.contains offset with
    | true =>
      obtain ⟨info, hinfo⟩ := Option.isSome_iff_exists.mp (hsome.trans hcontains)
      rw [hinfo]
      exact hinfo.symm
    | false =>
      have hnone : d.describeAt? offset = none := by simpa [hcontains] using hsome
      rw [hnone]
      exact ih

section Texts
variable {text : String} {d : Directive} (hd : d ∈ (parse text).template.directives) {offset : Nat}
include hd

theorem wide_of_mem_directives : d.span.Wide :=
  wide_of_mem_blocks (ParsedTemplate.exists_segment_of_mem_directives hd).1

/-- No two directives have a byte in common. -/
theorem eq_of_contains_directive {e : Directive} (he : e ∈ (parse text).template.directives)
    (ho : d.span.HasByte offset) (hoe : e.span.contains offset = true) : e = d := by
  have hmem : ∀ {c}, c ∈ (parse text).template.directives →
      Node.directive c ∈ (Node.template (parse text).template).children := fun hc =>
    List.mem_map_of_mem (ParsedTemplate.exists_segment_of_mem_directives hc).1
  exact Node.directive.inj ((Node.contains_iff_eq (b := .directive e)
    (spans_and_pairwise_blocks text).2 (wide_of_mem_directives he) (hmem hd) (hmem he) ho).mp hoe)

/-- Of a byte of a directive the template tells what the directive tells. -/
theorem describeAt?_of_hasByte (ho : d.span.HasByte offset) :
    (parse text).template.describeAt? offset = d.describeAt? offset := by
  have hfind : (parse text).template.directives.find? (·.span.contains offset) = some d :=
    find?_eq_some_of_unique hd ho.contains fun e he => eq_of_contains_directive hd he ho
  rw [Template.describeAt?_eq_find?, hfind]
  rfl

end Texts

/-! ## Tokens -/

/-- What is shown for the bytes of an attribute that the schema knows. -/
structure Template.DescribesAttribute (t : Template) (a : Attribute) (known : AttributeSchema)
    (offset : Nat) : Prop where
  of_signs : ∀ part ∈ a.signs, part.span.HasByte offset →
    t.describeAt? offset = some ⟨some known.description, a.span⟩
  of_closeQuote : ∀ quote ∈ a.closeQuote, quote.span.HasByte offset →
    (∀ value ∈ a.value, value.text ≠ "") →
    t.describeAt? offset = some ⟨some known.description, a.span⟩
  /-- The quote after an empty value shows what the value shows, which is nothing. -/
  of_emptyValue : ∀ quote ∈ a.closeQuote, quote.span.HasByte offset →
    ∀ value ∈ a.value, value.text = "" → t.describeAt? offset = some (.nothing value.span)
  of_knownValue : ∀ value ∈ a.value, value.span.HasByte offset →
    ∀ v, known.Knows value.text v → t.describeAt? offset = some ⟨some v.description, value.span⟩
  of_unknownValue : ∀ value ∈ a.value, value.span.HasByte offset →
    (∀ v, ¬ known.Knows value.text v) → t.describeAt? offset = some (.nothing value.span)

/-- What is shown for the bytes of a directive's tokens. -/
structure Template.DescribesTokens (t : Template) (d : Directive) (offset : Nat) : Prop where
  of_start : d.start.span.HasByte offset →
    t.describeAt? offset = some ⟨some d.schema.description, d.name.span⟩
  of_name : d.name.span.HasByte offset →
    t.describeAt? offset = some ⟨some d.schema.description, d.name.span⟩
  of_stop : ∀ stop ∈ d.stop, stop.span.HasByte offset →
    t.describeAt? offset = some ⟨some d.schema.description, stop.span⟩
  of_known : ∀ a ∈ d.attributes, ∀ known, d.schema.Knows a.name.text known →
    t.DescribesAttribute a known offset
  of_unknown : ∀ a ∈ d.attributes, (∀ known, ¬ d.schema.Knows a.name.text known) →
    ∀ part ∈ (Node.attr a).children, part.span.HasByte offset →
    t.describeAt? offset = some (.nothing a.span)

section Attributes
variable {text : String} {d : Directive} (hd : d ∈ (parse text).template.directives) {a : Attribute}
  (ha : a ∈ d.attributes) {offset : Nat}
include hd ha

/-- A byte of an attribute is a byte of its directive. -/
theorem hasByte_of_mem_attributes (ho : a.span.HasByte offset) : d.span.HasByte offset :=
  (wellPlaced_of_mem_directives hd).hasByte_of_mem_children (Directive.attr_mem_children ha) ho

/-- Of a byte of an attribute the template tells what the attribute tells. -/
theorem describeAt?_of_mem_attributes (ho : a.span.HasByte offset) :
    (parse text).template.describeAt? offset = some (a.describeAt d.schema offset) := by
  rw [describeAt?_of_hasByte hd (hasByte_of_mem_attributes hd ha ho),
    (wellPlaced_of_mem_directives hd).describeAt?_attribute ha ho]

theorem describeAt?_of_mem_parts {part : Node} (hpart : part ∈ (Node.attr a).children)
    (ho : part.span.HasByte offset) :
    (parse text).template.describeAt? offset = some (a.describeAt d.schema offset) :=
  describeAt?_of_mem_attributes hd ha
    ((wellPlaced_of_mem_attributes hd ha).hasByte_of_mem_children hpart ho)

/-- An attribute that the schema does not know shows nothing. -/
theorem describeAt?_of_unknown (hunknown : ∀ known, ¬ d.schema.Knows a.name.text known)
    {part : Node} (hpart : part ∈ (Node.attr a).children) (ho : part.span.HasByte offset) :
    (parse text).template.describeAt? offset = some (.nothing a.span) := by
  rw [describeAt?_of_mem_parts hd ha hpart ho]
  exact congrArg some (Attribute.describeAt_of_unknown hunknown)

theorem describesAttribute {known : AttributeSchema} (hknown : d.schema.Knows a.name.text known) :
    (parse text).template.DescribesAttribute a known offset := by
  have hplaced := wellPlaced_of_mem_attributes hd ha
  refine ⟨fun part hpart ho => ?_, fun quote hq ho hfull => ?_, fun quote hq ho value hv htext => ?_,
    fun value hv ho v hknows => ?_, fun value hv ho hnone => ?_⟩
  · rw [describeAt?_of_mem_parts hd ha (Attribute.mem_children_of_mem_signs hpart) ho]
    exact congrArg some (Attribute.describeAt_of_not_value hknown fun value hv =>
      hplaced.not_contains_value_of_signs hv hpart ho)
  · rw [describeAt?_of_mem_parts hd ha (Attribute.closeQuote_mem_children hq) ho]
    refine congrArg some (Attribute.describeAt_of_not_value hknown fun value hv => ?_)
    rw [← Bool.not_eq_true, hplaced.contains_value_of_closeQuote hv hq ho]
    exact hfull value hv
  · have hcontains := (hplaced.contains_value_of_closeQuote hv hq ho).mpr htext
    have hnone : ∀ v, ¬ known.Knows value.text v := by
      rw [AttributeSchema.forall_not_knows_iff hknown.1, htext]
      exact d.kind.value?_empty known hknown.1
    rw [describeAt?_of_mem_parts hd ha (Attribute.closeQuote_mem_children hq) ho]
    exact congrArg some (Attribute.describeAt_of_unknownValue hknown hv hcontains hnone)
  · rw [describeAt?_of_mem_parts hd ha (Attribute.value_mem_children hv) ho]
    exact congrArg some (Attribute.describeAt_of_knownValue hknown hv ho.contains hknows)
  · rw [describeAt?_of_mem_parts hd ha (Attribute.value_mem_children hv) ho]
    exact congrArg some (Attribute.describeAt_of_unknownValue hknown hv ho.contains hnone)

end Attributes

/-- **Descriptions of tokens.** Every byte of a token of a directive shows what the token stands for;
only the quote that closes an empty value shows nothing. -/
theorem describeAt?_token (text : String) {d : Directive}
    (hd : d ∈ (parse text).template.directives) (offset : Nat) :
    (parse text).template.DescribesTokens d offset := by
  have hplaced := wellPlaced_of_mem_directives hd
  have hpart : ∀ part ∈ (Node.directive d).children, part.span.HasByte offset →
      (parse text).template.describeAt? offset = d.describeAt? offset := fun part hpart ho =>
    describeAt?_of_hasByte hd (hplaced.hasByte_of_mem_children hpart ho)
  refine ⟨fun ho => ?_, fun ho => ?_, fun stop hstop ho => ?_,
    fun a ha known => describesAttribute hd ha, fun a ha hunknown part =>
      describeAt?_of_unknown hd ha hunknown⟩
  · rw [hpart _ d.start_mem_children ho, hplaced.describeAt?_head (.inl ho)]
  · rw [hpart _ d.name_mem_children ho, hplaced.describeAt?_head (.inr ho)]
  · rw [hpart _ (Directive.stop_mem_children hstop) ho, hplaced.describeAt?_stop hstop ho]

/-- The value of an attribute that breaks off after it, in a directive without an end. -/
theorem describeAt?_token_truncated :
    let tree := (parse "<#@ template debug=\"TRUE").template
    (tree.describeAt? 20).bind (·.description) = some "Enables the option." ∧
      ∃ d ∈ tree.directives, d.stop = none ∧ tree.DescribesTokens d 20 := by
  intro tree
  obtain ⟨d, hd, hstop⟩ : ∃ d ∈ tree.directives, d.stop = none := by decide +kernel
  exact ⟨by decide +kernel, d, hd, hstop, describeAt?_token _ hd 20⟩

/-- It is not so that both quotes show the description of an attribute that the schema knows. -/
theorem not_forall_describeAt?_closeQuote :
    ¬ ∀ text, ∀ d ∈ (parse text).template.directives, ∀ a ∈ d.attributes,
      ∀ known, d.schema.Knows a.name.text known →
      ∀ quote ∈ a.closeQuote, ∀ offset, quote.span.HasByte offset →
      (parse text).template.describeAt? offset = some ⟨some known.description, a.span⟩ := by
  intro h
  let text := "<#@ template debug=\"\" #>"
  obtain ⟨d, hd, a, ha, known, hmem, hname, quote, hquote, ho⟩ :
      ∃ d ∈ (parse text).template.directives, ∃ a ∈ d.attributes, ∃ known ∈ d.schema.attributes,
        sameLetters known.name a.name.text = true ∧
          ∃ quote ∈ a.closeQuote, quote.span.start ≤ 20 ∧ 20 < quote.span.stop := by
    decide +kernel
  have hshown := h text d hd a ha known ⟨hmem, hname⟩ quote hquote 20 ho
  have hnothing : ((parse text).template.describeAt? 20).bind (·.description) = none := by
    decide +kernel
  rw [hshown] at hnothing
  contradiction

/-! ## White space -/

/-- What a directive shows for a byte between its tokens. -/
structure Directive.DescribesBlank (d : Directive) (offset : Nat) : Prop where
  of_outside : (∀ a ∈ d.attributes, ¬ a.span.HasByte offset) →
    d.describeAt? offset = some (.nothing (.emptyAt offset))
  of_unknown : ∀ a ∈ d.attributes, a.span.HasByte offset →
    (∀ known, ¬ d.schema.Knows a.name.text known) →
    d.describeAt? offset = some (.nothing a.span)
  /-- Inside of an attribute that the schema knows the attribute is described. -/
  of_known : ∀ a ∈ d.attributes, a.span.HasByte offset →
    ∀ known, d.schema.Knows a.name.text known →
    d.describeAt? offset = some ⟨some known.description, a.span⟩
  nothing_iff : (∃ span, d.describeAt? offset = some (.nothing span)) ↔
    ∀ a ∈ d.attributes, a.span.HasByte offset → ∀ known, ¬ d.schema.Knows a.name.text known

section Blank
variable {text : String} {d : Directive} (hd : d ∈ (parse text).template.directives) {offset : Nat}
include hd

/-- An attribute that the schema does not know shows nothing at all of its bytes. -/
theorem describeAt?_unknown {a : Attribute} (ha : a ∈ d.attributes) (ho : a.span.HasByte offset)
    (hunknown : ∀ known, ¬ d.schema.Knows a.name.text known) :
    d.describeAt? offset = some (.nothing a.span) := by
  rw [(wellPlaced_of_mem_directives hd).describeAt?_attribute ha ho]
  exact congrArg some (Attribute.describeAt_of_unknown hunknown)

variable (hblank : ∀ leaf ∈ (Node.directive d).leaves, ¬ leaf.span.HasByte offset)
include hblank

theorem describeAt?_blank_outside (ho : d.span.HasByte offset)
    (hattrs : ∀ a ∈ d.attributes, ¬ a.span.HasByte offset) :
    d.describeAt? offset = some (.nothing (.emptyAt offset)) := by
  rw [Node.leaves_directive] at hblank
  refine (wellPlaced_of_mem_directives hd).describeAt?_between ho fun part hpart => ?_
  simp only [Node.children, List.mem_append, List.mem_map] at hpart
  rcases hpart with (hhead | ⟨a, ha, rfl⟩) | hstop
  · exact hblank part (List.mem_append_left _ (List.mem_append_left _ hhead))
  · exact hattrs a ha
  · exact hblank part (List.mem_append_right _ hstop)

theorem describeAt?_blank_known {a : Attribute} (ha : a ∈ d.attributes) (ho : a.span.HasByte offset)
    {known : AttributeSchema} (hknown : d.schema.Knows a.name.text known) :
    d.describeAt? offset = some ⟨some known.description, a.span⟩ := by
  have hparts : ∀ part ∈ (Node.attr a).children, ¬ part.span.HasByte offset := by
    intro part hpart
    rw [Node.leaves_directive] at hblank
    refine hblank part (List.mem_append_left _ (List.mem_append_right _ ?_))
    exact List.mem_flatMap.mpr ⟨a, ha, by rwa [Node.leaves_attr]⟩
  rw [(wellPlaced_of_mem_directives hd).describeAt?_attribute ha ho]
  exact congrArg some (Attribute.describeAt_of_not_value hknown fun value hvalue =>
    (wellPlaced_of_mem_attributes hd ha).not_contains_value_of_between hvalue ho hparts)

end Blank

/-- **Descriptions of white space.** A byte between the tokens of a directive shows nothing, unless
it is inside of an attribute that the schema knows. -/
theorem describeAt?_blank (text : String) {d : Directive}
    (hd : d ∈ (parse text).template.directives) {offset : Nat} (ho : d.span.HasByte offset)
    (hblank : ∀ leaf ∈ (Node.directive d).leaves, ¬ leaf.span.HasByte offset) :
    d.DescribesBlank offset := by
  have houtside := describeAt?_blank_outside hd hblank ho
  refine ⟨houtside, fun a ha hoa => describeAt?_unknown hd ha hoa,
    fun a ha hoa known => describeAt?_blank_known hd hblank ha hoa, ⟨?_, fun hunknown => ?_⟩⟩
  · rintro ⟨span, hnothing⟩ a ha hoa known hknown
    rw [describeAt?_blank_known hd hblank ha hoa hknown] at hnothing
    exact absurd hnothing (by simp [QuickInfo.nothing])
  · by_cases hattrs : ∃ a ∈ d.attributes, a.span.HasByte offset
    · obtain ⟨a, ha, hoa⟩ := hattrs
      exact ⟨_, describeAt?_unknown hd ha hoa (hunknown a ha hoa)⟩
    · exact ⟨_, houtside fun a ha hoa => hattrs ⟨a, ha, hoa⟩⟩

/-- The white space in front of the sign `=` belongs to no token of its directive. -/
theorem exists_blank_in_attribute :
    ∃ d ∈ (parse "<#@ template debug = \"true\" #>").template.directives,
      d.span.HasByte 18 ∧ (∀ leaf ∈ (Node.directive d).leaves, ¬ leaf.span.HasByte 18) ∧
      ∀ span, d.describeAt? 18 ≠ some (.nothing span) := by
  have hblank : ∃ d ∈ (parse "<#@ template debug = \"true\" #>").template.directives,
      (d.span.start ≤ 18 ∧ 18 < d.span.stop) ∧
      (∀ leaf ∈ [Node.token d.start, .capture d.name] ++
          d.attributes.flatMap (fun a => (Node.attr a).children) ++ (d.stop.map .token).toList,
        ¬ (leaf.span.start ≤ 18 ∧ 18 < leaf.span.stop)) ∧
      ((d.describeAt? 18).bind (·.description)).isSome = true := by
    decide +kernel
  obtain ⟨d, hd, ho, hleaves, hsome⟩ := hblank
  refine ⟨d, hd, ho, ?_, fun span hnothing => ?_⟩
  · rw [Node.leaves_directive]
    simp only [Node.leaves_attr]
    exact hleaves
  · rw [hnothing] at hsome
    contradiction

theorem describeAt?_blank_in_attribute :
    ∃ d ∈ (parse "<#@ template debug = \"true\" #>").template.directives,
      d.span.HasByte 18 ∧ (∀ leaf ∈ (Node.directive d).leaves, ¬ leaf.span.HasByte 18) ∧
      d.DescribesBlank 18 := by
  obtain ⟨d, hd, ho, hblank, -⟩ := exists_blank_in_attribute
  exact ⟨d, hd, ho, hblank, describeAt?_blank _ hd ho hblank⟩

/-- It is not so that all white space of a directive shows nothing. -/
theorem not_forall_describeAt?_blank :
    ¬ ∀ text, ∀ d ∈ (parse text).template.directives, ∀ offset, d.span.HasByte offset →
      (∀ leaf ∈ (Node.directive d).leaves, ¬ leaf.span.HasByte offset) →
      ∃ span, d.describeAt? offset = some (.nothing span) := by
  intro h
  obtain ⟨d, hd, ho, hblank, hsome⟩ := exists_blank_in_attribute
  obtain ⟨span, hnothing⟩ := h _ d hd 18 ho hblank
  exact hsome span hnothing

end TextTemplate
