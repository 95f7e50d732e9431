import TextTemplate.Proofs.NodeBytes

/-!
# The parts of directives

What the reader of a template makes sure of in every directive, complete or not. The parts of an
attribute that are there are the first ones of those that the grammar asks for (`Attribute.Begun`).
All parts have the kinds that the grammar has in their places (`Directive.KindsFit`), and they stand
for tokens that are found one after the other, so the quote after a value is the one that closes it.

`Directive.WellPlaced` and `Attribute.WellPlaced` say of the places of the parts all that is needed to
find the part that an offset belongs to: they are in order, and a part that is not a value is wide.
-/
namespace TextTemplate

/-! ## Parts -/

namespace Attribute
variable {a : Attribute}

theorem name_mem_children (a : Attribute) : Node.capture a.name ∈ (Node.attr a).children := by
  simp [Node.children]

theorem value_mem_children {value : Token} (h : a.value = some value) :
    Node.capture value ∈ (Node.attr a).children := by
  simp [Node.children, h]

theorem closeQuote_mem_children {quote : Mark} (h : a.closeQuote = some quote) :
    Node.token quote ∈ (Node.attr a).children := by
  simp [Node.children, h]

end Attribute

namespace Directive
variable {d : Directive}

theorem start_mem_children (d : Directive) :
    Node.token d.start ∈ (Node.directive d).children := by
  simp [Node.children]

theorem name_mem_children (d : Directive) :
    Node.capture d.name ∈ (Node.directive d).children := by
  simp [Node.children]

theorem attr_mem_children {a : Attribute} (h : a ∈ d.attributes) :
    Node.attr a ∈ (Node.directive d).children := by
  simp [Node.children, h]

theorem stop_mem_children {stop : Mark} (h : d.stop = some stop) :
    Node.token stop ∈ (Node.directive d).children := by
  simp [Node.children, h]

end Directive

/-! ## Kinds -/

/-- The kinds of the five parts of an attribute in order, where they are there. -/
def Attribute.partKinds (a : Attribute) : List (Option TokenKind) :=
  [some a.name.kind, a.equals.map (·.kind), a.openQuote.map (·.kind), a.value.map (·.kind),
    a.closeQuote.map (·.kind)]

/-- The first `count` parts of the attribute are there, of the kinds that the grammar has in their
places, and the others are not. -/
def Attribute.Reaches (a : Attribute) (count : Nat) : Prop :=
  a.partKinds = (Grammar.attrWord.take count).map some ++ List.replicate (5 - count) none

/-- The attribute was written as the grammar has it, as far as it was written. -/
def Attribute.Begun (a : Attribute) : Prop :=
  ∃ count, 0 < count ∧ count ≤ 5 ∧ a.Reaches count

/-- The parts of the attribute have the kinds that the grammar has in their places. -/
structure Attribute.KindsFit (a : Attribute) : Prop where
  name : a.name.kind = .attributeName
  equals : ∀ m ∈ a.equals, m.kind = .equals
  openQuote : ∀ m ∈ a.openQuote, m.kind = .quote
  value : ∀ t ∈ a.value, t.kind = .attributeValue
  closeQuote : ∀ m ∈ a.closeQuote, m.kind = .quote

/-- So do the parts of the directive. -/
structure Directive.KindsFit (d : Directive) : Prop where
  start : d.start.kind = .directiveStart
  name : d.name.kind = .directiveName
  attributes : ∀ a ∈ d.attributes, a.KindsFit
  stop : ∀ m ∈ d.stop, m.kind = .blockEnd

/-- A part that is there has the kind that the grammar has in its place. -/
theorem Attribute.Reaches.kind_eq {a : Attribute} {count i : Nat} {kind kind' : TokenKind}
    (h : a.Reaches count) (hpart : a.partKinds[i]? = some (some kind))
    (hword : Grammar.attrWord[i]? = some kind') : kind = kind' := by
  rw [h, List.getElem?_append] at hpart
  split at hpart
  · rw [List.getElem?_map, Option.map_eq_some_iff] at hpart
    obtain ⟨found, hfound, hkind⟩ := hpart
    rw [List.getElem?_take] at hfound
    split at hfound
    · exact (Option.some.inj hkind).symm.trans (Option.some.inj (hfound.symm.trans hword))
    · contradiction
  · simp [List.getElem?_replicate] at hpart

theorem Attribute.Begun.kindsFit {a : Attribute} (h : a.Begun) : a.KindsFit := by
  obtain ⟨count, -, -, h⟩ := h
  exact {
    name := h.kind_eq (i := 0) rfl rfl
    equals := fun m hm => h.kind_eq (i := 1) (by rw [partKinds, hm]; rfl) rfl
    openQuote := fun m hm => h.kind_eq (i := 2) (by rw [partKinds, hm]; rfl) rfl
    value := fun t ht => h.kind_eq (i := 3) (by rw [partKinds, ht]; rfl) rfl
    closeQuote := fun m hm => h.kind_eq (i := 4) (by rw [partKinds, hm]; rfl) rfl }

theorem Attribute.KindsFit.kind_ne_blockEnd {a : Attribute} (h : a.KindsFit) {leaf : Node}
    (hleaf : leaf ∈ (Node.attr a).children) : leaf.kind ≠ .leaf .blockEnd := by
  simp only [Node.children, List.mem_append, List.mem_singleton, Option.mem_toList,
    Option.map_eq_some_iff] at hleaf
  rcases hleaf with (((rfl | ⟨m, hm, rfl⟩) | ⟨m, hm, rfl⟩) | ⟨t, ht, rfl⟩) | ⟨m, hm, rfl⟩
  · simp [Node.kind, h.name]
  · simp [Node.kind, h.equals m hm]
  · simp [Node.kind, h.openQuote m hm]
  · simp [Node.kind, h.value t ht]
  · simp [Node.kind, h.closeQuote m hm]

/-- The only leaf of a directive that ends a block is its end. -/
theorem Directive.KindsFit.mem_stop {d : Directive} (h : d.KindsFit) {leaf : Node}
    (hleaf : leaf ∈ (Node.directive d).leaves) (hk : leaf.kind = .leaf .blockEnd) :
    leaf ∈ (d.stop.map Node.token).toList := by
  rw [Node.leaves_directive] at hleaf
  rcases List.mem_append.mp hleaf with hleaf | hleaf
  · rcases List.mem_append.mp hleaf with hleaf | hleaf
    · simp only [List.mem_cons, List.not_mem_nil, or_false] at hleaf
      rcases hleaf with rfl | rfl
      · simp [Node.kind, h.start] at hk
      · simp [Node.kind, h.name] at hk
    · obtain ⟨a, ha, hleaf⟩ := List.mem_flatMap.mp hleaf
      rw [Node.leaves_attr] at hleaf
      exact absurd hk ((h.attributes a ha).kind_ne_blockEnd hleaf)
  · exact hleaf

section Kinds
variable {next name : Token} {tokens : List Token}

/-- An attribute is read as far as its tokens follow the grammar. -/
theorem begun_readAttribute (hname : name.kind = .attributeName) :
    (readAttribute next name tokens).1.Begun := by
  fun_cases readAttribute next name tokens with
  | case1 =>
    refine ⟨1, by decide, by decide, ?_⟩
    simp [Attribute.Reaches, Attribute.partKinds, Grammar.attrWord, hname]
  | case2 equals _ h₁ =>
    have k₁ := (eq_cons_of_expect h₁).2
    refine ⟨2, by decide, by decide, ?_⟩
    simp [Attribute.Reaches, Attribute.partKinds, Grammar.attrWord, hname, k₁]
  | case3 equals _ h₁ openQuote _ h₂ =>
    have k₁ := (eq_cons_of_expect h₁).2
    have k₂ := (eq_cons_of_expect h₂).2
    refine ⟨3, by decide, by decide, ?_⟩
    simp [Attribute.Reaches, Attribute.partKinds, Grammar.attrWord, hname, k₁, k₂]
  | case4 equals _ h₁ openQuote _ h₂ value _ h₃ =>
    have k₁ := (eq_cons_of_expect h₁).2
    have k₂ := (eq_cons_of_expect h₂).2
    have k₃ := (eq_cons_of_expect h₃).2
    refine ⟨4, by decide, by decide, ?_⟩
    simp [Attribute.Reaches, Attribute.partKinds, Grammar.attrWord, hname, k₁, k₂, k₃]
  | case5 equals _ h₁ openQuote _ h₂ value _ h₃ closeQuote _ h₄ =>
    have k₁ := (eq_cons_of_expect h₁).2
    have k₂ := (eq_cons_of_expect h₂).2
    have k₃ := (eq_cons_of_expect h₃).2
    have k₄ := (eq_cons_of_expect h₄).2
    refine ⟨5, by decide, by decide, ?_⟩
    simp [Attribute.Reaches, Attribute.partKinds, Grammar.attrWord, hname, k₁, k₂, k₃, k₄]

theorem begun_readAttributes : ∀ a ∈ (readAttributes next tokens).1, a.Begun := by
  fun_induction readAttributes next tokens with
  | case2 token tokens hkind attr fault hattr =>
    have hfirst : (readAttribute next token tokens).1.Begun := begun_readAttribute hkind
    rw [hattr] at hfirst
    simpa using hfirst
  | case3 token tokens hkind attr rest hattr attrs ending hattrs ih =>
    have hfirst : (readAttribute next token tokens).1.Begun := begun_readAttribute hkind
    rw [hattr] at hfirst
    rw [hattrs] at ih
    exact List.forall_mem_cons.mpr ⟨hfirst, ih⟩
  | case1 | case4 | case5 => simp

theorem begun_of_mem_directives {text : String} {d : Directive}
    (hd : d ∈ (parse text).template.directives) : ∀ a ∈ d.attributes, a.Begun := by
  obtain ⟨-, segment, -, hsegment⟩ := ParsedTemplate.exists_segment_of_mem_directives hd
  obtain ⟨-, -, tokens, -, -, hattrs⟩ := Segment.of_read_directive hsegment
  have hbegun : ∀ a ∈ (readAttributes segment.next tokens).1, a.Begun := begun_readAttributes
  rcases hattrs with ⟨fault, hattrs, -⟩ | ⟨stop, stray, hattrs, -⟩ <;> rwa [hattrs] at hbegun

theorem kindsFit_of_mem_directives {text : String} {d : Directive}
    (hd : d ∈ (parse text).template.directives) : d.KindsFit := by
  have hfit : ∀ a ∈ d.attributes, a.KindsFit :=
    fun a ha => (begun_of_mem_directives hd a ha).kindsFit
  obtain ⟨-, segment, -, hsegment⟩ := ParsedTemplate.exists_segment_of_mem_directives hd
  obtain ⟨hkind, hstart, tokens, -, hname, hattrs⟩ := Segment.of_read_directive hsegment
  have hstart : d.start.kind = .directiveStart := by rw [hstart, ← hkind]
  rcases hattrs with ⟨fault, -, hstop⟩ | ⟨stop, stray, hattrs, hstop⟩
  · exact ⟨hstart, hname, hfit, by simp [hstop]⟩
  · obtain ⟨-, -, hend, -⟩ := readAttributes_ok hattrs
    exact ⟨hstart, hname, hfit, by simpa [hstop] using hend⟩

end Kinds

/-! ## Closing quotes -/

/-- The quote that closes a value stands directly behind it, and has one byte at most. -/
theorem closeQuote_of_mem_directives {text : String} {d : Directive} {a : Attribute} {value : Token}
    {quote : Mark} (hd : d ∈ (parse text).template.directives) (ha : a ∈ d.attributes)
    (hvalue : a.value = some value) (hquote : a.closeQuote = some quote) :
    quote.span.start = value.span.stop ∧ quote.span.stop ≤ value.span.stop + 1 := by
  obtain ⟨hblock, -⟩ := ParsedTemplate.exists_segment_of_mem_directives hd
  obtain ⟨used, hused, hleaves⟩ := ParsedTemplate.exists_used_of_mem_blocks hblock
  -- the two are the last leaves of the attribute
  have hattr : [Node.capture value, Node.token quote] <:+ (Node.attr a).leaves := by
    refine ⟨[.capture a.name] ++ (a.equals.map .token).toList ++ (a.openQuote.map .token).toList, ?_⟩
    simp [Node.leaves_attr, hvalue, hquote]
  have hdirective : (Node.attr a).leaves <:+: (Block.directive d).node.leaves := by
    have hflat : (Node.attr a).leaves <:+: d.attributes.flatMap fun a => (Node.attr a).leaves :=
      List.infix_of_mem_flatten (List.mem_map_of_mem ha)
    rw [Block.node, Node.leaves_directive]
    exact hflat.trans ⟨_, _, rfl⟩
  obtain ⟨before, after, hsplit⟩ := hattr.isInfix.trans hdirective
  rw [hleaves, eq_comm] at hsplit
  obtain ⟨init, rest, rfl, hinit, -⟩ := List.map_eq_append_iff.mp hsplit
  obtain ⟨front, pair, rfl, -, hpair⟩ := List.map_eq_append_iff.mp hinit
  obtain ⟨v, qs, rfl, hv, hqs⟩ := List.map_eq_cons_iff.mp hpair
  obtain ⟨q, rest', rfl, hq, hrest⟩ := List.map_eq_cons_iff.mp hqs
  obtain rfl := List.map_eq_nil_iff.mp hrest
  obtain rfl := Token.eq_of_node_eq_capture hv
  obtain ⟨rfl, -⟩ := Token.eq_of_node_eq_token hq
  have hfit := (kindsFit_of_mem_directives hd).attributes a ha
  have hinfix : [v, q] <:+: (scan text).tokens :=
    List.IsInfix.trans ⟨front, rest, rfl⟩ hused
  exact closedBy_of_infix hinfix (hfit.value v hvalue) (hfit.closeQuote _ hquote)

/-! ## Places -/

/-- What is known of the places of an attribute's parts. -/
structure Attribute.WellPlaced (a : Attribute) : Prop where
  pairwise : (Node.attr a).children.Pairwise Node.Before
  spans : (Node.attr a).Spans (Node.attr a).children
  wide_value : ∀ value ∈ a.value, value.text ≠ "" → value.span.Wide
  isEmpty_value : ∀ value ∈ a.value, value.text = "" → value.span.isEmpty = true
  wide_closeQuote : ∀ quote ∈ a.closeQuote, quote.span.Wide
  /-- The closing quote stands directly behind the value, and has one byte at most. -/
  closeQuote : ∀ value ∈ a.value, ∀ quote ∈ a.closeQuote,
    quote.span.start = value.span.stop ∧ quote.span.stop ≤ value.span.stop + 1

/-- What is known of the places of a directive's parts. -/
structure Directive.WellPlaced (d : Directive) : Prop where
  pairwise : (Node.directive d).children.Pairwise Node.Before
  spans : (Node.directive d).Spans (Node.directive d).children
  wide : ∀ part ∈ (Node.directive d).children, part.span.Wide

section Places
variable {text : String} {d : Directive} (hd : d ∈ (parse text).template.directives)
include hd

/-- The first token of each part of a directive is not a value. -/
theorem wide_of_mem_children {part : Node} (h : part ∈ (Node.directive d).children) :
    part.span.Wide := by
  have hfit := kindsFit_of_mem_directives hd
  have hmem : part ∈ (Node.template (parse text).template).descendants :=
    Node.descendants_subset (directive_mem_descendants hd) (mem_descendants_of_mem_children h)
  have ht := Node.not_template_of_mem_children h
  simp only [Node.children, List.mem_append, List.mem_cons, List.not_mem_nil, or_false,
    List.mem_map, Option.mem_toList, Option.map_eq_some_iff] at h
  rcases h with ((rfl | rfl) | ⟨a, ha, rfl⟩) | ⟨stop, hstop, rfl⟩
  · refine wide_of_mem_descendants hmem ht (by rw [Node.leaves_token]; rfl) ?_
    simp [Node.kind, hfit.start]
  · refine wide_of_mem_descendants hmem ht (by rw [Node.leaves_capture]; rfl) ?_
    simp [Node.kind, hfit.name]
  · refine wide_of_mem_descendants hmem ht (by rw [Node.leaves_attr]; rfl) ?_
    simp [Node.kind, (hfit.attributes a ha).name]
  · refine wide_of_mem_descendants hmem ht (by rw [Node.leaves_token]; rfl) ?_
    simp [Node.kind, hfit.stop stop hstop]

theorem mem_leaves_of_mem_attr {a : Attribute} (ha : a ∈ d.attributes) {leaf : Node}
    (hleaf : leaf ∈ (Node.attr a).children) :
    leaf ∈ (Node.template (parse text).template).leaves := by
  have hattr : Node.attr a ∈ (Node.template (parse text).template).descendants :=
    Node.descendants_subset (directive_mem_descendants hd)
      (mem_descendants_of_mem_children (Directive.attr_mem_children ha))
  refine Node.mem_leaves_of_mem_descendants hattr ?_
  rw [Node.leaves_attr]
  exact hleaf

/-- The name and the value of an attribute are tokens of the text. -/
theorem mem_scan_of_mem_attr {a : Attribute} (ha : a ∈ d.attributes) {t : Token}
    (h : Node.capture t ∈ (Node.attr a).children) : t ∈ (scan text).tokens := by
  obtain ⟨u, hu, hnode⟩ := (pairwise_leaves text).1 _ (mem_leaves_of_mem_attr hd ha h)
  exact Token.eq_of_node_eq_capture hnode.symm ▸ hu

theorem wellPlaced_of_mem_attributes {a : Attribute} (ha : a ∈ d.attributes) : a.WellPlaced := by
  have hin : (Node.attr a).InOrder := (inOrder_directive hd).child (Directive.attr_mem_children ha)
  obtain ⟨-, hpairs, hspans⟩ := hin.nested (by simp)
  have hvalue : ∀ value ∈ a.value, value ∈ (scan text).tokens := fun value hvalue =>
    mem_scan_of_mem_attr hd ha (Attribute.value_mem_children hvalue)
  refine ⟨hpairs, hspans rfl, fun value h => (wide_of_mem_scanChars (hvalue value h)).1,
    fun value h => (wide_of_mem_scanChars (hvalue value h)).2, fun quote hquote => ?_,
    fun value hvalue quote hquote => closeQuote_of_mem_directives hd ha hvalue hquote⟩
  have hleaf := mem_leaves_of_mem_attr hd ha (Attribute.closeQuote_mem_children hquote)
  exact wide_of_mem_leaves hleaf (by simp [Node.kind, kind_ne_of_mem_leaves hleaf])

theorem wellPlaced_of_mem_directives : d.WellPlaced := by
  obtain ⟨-, hpairs, hspans⟩ := (inOrder_directive hd).nested (by simp)
  exact ⟨hpairs, hspans rfl, fun part => wide_of_mem_children hd⟩

end Places

end TextTemplate
