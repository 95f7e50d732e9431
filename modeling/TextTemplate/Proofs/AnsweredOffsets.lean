import TextTemplate.Proofs.Descriptions

/-!
# Offsets that are answered for

A directive answers for the offsets that its span contains. Directives are wide and follow one
another, so no two of them answer for the same offset, and the template tells of an offset what the
one directive tells that answers for it (`describeAt?_answers`).

Whatever else there is in a text has no byte in common with a directive, since a token is part of
the directive, in front of it or behind it (`mem_leaves_or_apart`). For output text there is no
token to go by. It is known by the block end in front of it, which would have to be the end of a
directive that goes on behind it.

Spans cannot tell apart offsets from `maxOffset` on. In a text that reaches so far all directives
stand there that do not start before, so nothing is said of that one offset unless the text is
shorter.
-/
namespace TextTemplate

/-! ## Offsets without a directive -/

/-- There is no directive at the offset: it is in output text, in a code block, in a token that did
not get into the tree, or at or behind the end of the text. -/
inductive Unanswered (text : String) (offset : Nat) : Prop
  /-- No token has the offset, and the last one in front of it, if there is one, ends a block. -/
  | output {before after : List Token} (htokens : (scan text).tokens = before ++ after)
      (hbefore : ∀ t ∈ before, t.span.stop ≤ offset) (hafter : ∀ t ∈ after, offset < t.span.start)
      (hend : ∀ t ∈ before.getLast?, t.kind = .blockEnd)
  | code {b : CodeBlock} (hb : b ∈ (parse text).template.codeBlocks)
      (ho : b.span.contains offset = true)
  | dropped {t : Token} (ht : t ∈ (scan text).tokens)
      (hdropped : t.node ∉ (Node.template (parse text).template).leaves)
      (ho : t.span.HasByte offset)
  | pastEnd (h : byteLength text.toList ≤ offset)

section Texts
variable {text : String} {d : Directive} (hd : d ∈ (parse text).template.directives) {t : Token}
  (ht : t ∈ (scan text).tokens) {offset : Nat}
include hd

/-- A directive reaches from its first to its last token. -/
theorem spans_leaves_of_mem_directives : (Node.directive d).Spans (Node.directive d).leaves :=
  Node.spans_leaves (by simp) (inOrder_directive hd)

theorem exists_token_of_mem_leaves {leaf : Node} (h : leaf ∈ (Node.directive d).leaves) :
    ∃ t ∈ (scan text).tokens, leaf = t.node :=
  (pairwise_leaves text).1 leaf
    (Node.mem_leaves_of_mem_descendants (directive_mem_descendants hd) h)

include ht in
/-- A token belongs to the directive, or it stands in front of it or behind it. -/
theorem mem_leaves_or_apart : t.node ∈ (Node.directive d).leaves ∨
    t.span.stop ≤ d.span.start ∨ d.span.stop ≤ t.span.start := by
  obtain ⟨used, ⟨front, rest, htokens⟩, hleaves⟩ :=
    ParsedTemplate.exists_used_of_mem_blocks (ParsedTemplate.exists_segment_of_mem_directives hd).1
  have hspans := spans_leaves_of_mem_directives hd
  have hpairs : (scan text).tokens.Pairwise fun s t => s.span.stop ≤ t.span.start :=
    pairwise_scanChars text.toList
  rw [Block.node] at hleaves
  rw [← htokens] at ht hpairs
  obtain ⟨hfront, -, hrest⟩ := List.pairwise_append.mp hpairs
  rcases List.mem_append.mp ht with ht | ht
  · rcases List.mem_append.mp ht with ht | ht
    · obtain ⟨first, hfirst, hstart, -⟩ := hspans.exists_head
      have hmem := List.mem_of_head? hfirst
      rw [hleaves] at hmem
      obtain ⟨u, hu, rfl⟩ := List.mem_map.mp hmem
      rw [Token.span_node] at hstart
      exact .inr (.inl (hstart ▸ (List.pairwise_append.mp hfront).2.2 t ht u hu))
    · exact .inl (hleaves ▸ List.mem_map_of_mem ht)
  · obtain ⟨last, hlast, hstop⟩ := hspans.exists_getLast
    have hmem := List.mem_of_getLast? hlast
    rw [hleaves] at hmem
    obtain ⟨u, hu, rfl⟩ := List.mem_map.mp hmem
    rw [Token.span_node] at hstop
    exact .inr (.inr (hstop ▸ hrest u (List.mem_append_right _ hu) t ht))

/-- A block end that belongs to the directive stops where the directive does. -/
theorem stop_eq_of_blockEnd (h : t.node ∈ (Node.directive d).leaves) (hk : t.kind = .blockEnd) :
    t.span.stop = d.span.stop := by
  have hkind : t.node.kind = .leaf .blockEnd := by rw [Token.kind_node, hk]
  have hmem := (kindsFit_of_mem_directives hd).mem_stop h hkind
  have hlast : (Node.directive d).leaves.getLast? = some t.node := by
    rw [Node.leaves_directive, (Option.mem_toList.mp hmem), Option.toList_some,
      List.getLast?_concat]
  have hstop := (spans_leaves_of_mem_directives hd).stop_eq
  rw [hlast] at hstop
  rw [← Token.span_node]
  exact Option.some.inj hstop

/-! ### Nothing else has a byte of a directive -/

theorem not_hasByte_of_dropped (ht : t ∈ (scan text).tokens)
    (hdropped : t.node ∉ (Node.template (parse text).template).leaves)
    (ho : t.span.HasByte offset) : ¬ d.span.HasByte offset := by
  intro hod
  simp only [Span.HasByte] at ho hod
  rcases mem_leaves_or_apart hd ht with hleaf | hfront | hbehind
  · exact hdropped (Node.mem_leaves_of_mem_descendants (directive_mem_descendants hd) hleaf)
  · omega
  · omega

theorem not_hasByte_of_code {b : CodeBlock} (hb : b ∈ (parse text).template.codeBlocks)
    (ho : b.span.contains offset = true) : ¬ d.span.HasByte offset := by
  obtain ⟨block, hblock, hcode⟩ := List.mem_filterMap.mp hb
  cases block with
  | directive => contradiction
  | code =>
    obtain rfl := Option.some.inj hcode
    intro hod
    have hdirective := (ParsedTemplate.exists_segment_of_mem_directives hd).1
    have heq := (Node.contains_iff_eq (a := .directive d) (b := .codeBlock _)
      (spans_and_pairwise_blocks text).2 (wide_of_mem_blocks hblock)
      (List.mem_map_of_mem hdirective) (List.mem_map_of_mem hblock) hod).mp ho
    contradiction

theorem not_hasByte_of_pastEnd (h : byteLength text.toList ≤ offset) :
    ¬ d.span.HasByte offset := by
  intro hod
  obtain ⟨last, hlast, hstop⟩ := (spans_leaves_of_mem_directives hd).exists_getLast
  obtain ⟨t, ht, rfl⟩ := exists_token_of_mem_leaves hd (List.mem_of_getLast? hlast)
  have hle := stop_le_of_mem_scanChars ht
  have hlt : offset < d.span.stop := hod.2
  rw [Token.span_node] at hstop
  have hend : t.span.stop = d.span.stop := hstop
  omega

/-- The first token of a directive has a byte where a span can have one. -/
theorem exists_first_token (hmax : d.span.start < maxOffset) :
    ∃ t ∈ (scan text).tokens, t.span.start = d.span.start ∧ t.span.start < t.span.stop := by
  have hplaced := wellPlaced_of_mem_directives hd
  have hleaf : Node.token d.start ∈ (Node.directive d).leaves := by simp [Node.leaves_directive]
  obtain ⟨t, ht, hnode⟩ := exists_token_of_mem_leaves hd hleaf
  have hspan : t.span = d.start.span := by
    rw [← Token.span_node, ← hnode]
    rfl
  have hstart : d.start.span.start = d.span.start := Option.some.inj hplaced.spans.start_eq
  rw [← hstart] at hmax
  exact ⟨t, ht, hspan ▸ hstart, hspan ▸ hplaced.wide _ d.start_mem_children hmax⟩

/-- The directive would have to start before the block end in front of the offset, so the block end
would be its own. -/
theorem not_hasByte_of_output {before after : List Token}
    (htokens : (scan text).tokens = before ++ after)
    (hbefore : ∀ t ∈ before, t.span.stop ≤ offset) (hafter : ∀ t ∈ after, offset < t.span.start)
    (hend : ∀ t ∈ before.getLast?, t.kind = .blockEnd) : ¬ d.span.HasByte offset := by
  intro hod
  have hlo : d.span.start ≤ offset := hod.1
  have hhi : offset < d.span.stop := hod.2
  have hmax := hod.lt_maxOffset
  obtain ⟨first, hfirst, hstart, hwide⟩ := exists_first_token hd (by omega)
  have hmem : first ∈ before := by
    refine (List.mem_append.mp (htokens ▸ hfirst)).resolve_right fun hmem => ?_
    have := hafter first hmem
    omega
  obtain ⟨init, last, rfl⟩ := before.eq_nil_or_concat'.resolve_left (List.ne_nil_of_mem hmem)
  have hlast : last ∈ (scan text).tokens := by simp [htokens]
  have hlast_stop := hbefore last (by simp)
  have hlast_le := last.span.start_le_stop
  rcases mem_leaves_or_apart hd hlast with hleaf | hfront | hbehind
  · have hstop := stop_eq_of_blockEnd hd hleaf (hend last (by simp))
    omega
  · rcases List.mem_append.mp hmem with hinit | hfirst
    · have hpairs : (init ++ [last] ++ after).Pairwise fun s t => s.span.stop ≤ t.span.start :=
        htokens ▸ pairwise_scanChars text.toList
      have hbefore_last := (List.pairwise_append.mp (List.pairwise_append.mp hpairs).1).2.2 first
        hinit last (List.mem_singleton_self last)
      omega
    · obtain rfl := List.mem_singleton.mp hfirst
      omega
  · omega

/-- No directive has a byte where there is none. -/
theorem not_hasByte_of_unanswered (h : Unanswered text offset) : ¬ d.span.HasByte offset := by
  cases h with
  | output htokens hbefore hafter hend =>
    exact not_hasByte_of_output hd htokens hbefore hafter hend
  | code hb ho => exact not_hasByte_of_code hd hb ho
  | dropped ht hdropped ho => exact not_hasByte_of_dropped hd ht hdropped ho
  | pastEnd h => exact not_hasByte_of_pastEnd hd h

end Texts

/-! ## Answers -/

/-- The template tells of the offset what the one directive tells that contains it; without such a
directive it tells nothing. -/
structure Template.AnswersAt (t : Template) (offset : Nat) : Prop where
  isSome_iff : (t.describeAt? offset).isSome = true ↔
    ∃ d ∈ t.directives, d.span.contains offset = true
  /-- The directive that contains the offset is the only one that tells something of it. -/
  alone : ∀ before d after, t.directives = before ++ d :: after → d.span.contains offset = true →
    t.describeAt? offset = d.describeAt? offset ∧
      ∀ e ∈ before ++ after, e.span.contains offset = false ∧ e.describeAt? offset = none

theorem Directive.describeAt?_eq_none_iff {d : Directive} {offset : Nat} :
    d.describeAt? offset = none ↔ d.span.contains offset = false := by
  rw [← Option.not_isSome_iff_eq_none, d.isSome_describeAt?, Bool.not_eq_true]

theorem Template.isSome_describeAt?_iff {t : Template} {offset : Nat} :
    (t.describeAt? offset).isSome = true ↔ ∃ d ∈ t.directives, d.span.contains offset = true := by
  rw [describeAt?, List.isSome_findSome?]
  simp only [List.any_eq_true, Directive.isSome_describeAt?]

section Answers
variable {text : String} {offset : Nat}
  (hreach : offset < maxOffset ∨ byteLength text.toList ≤ maxOffset)
include hreach

/-- Up to the bound of spans a directive contains its bytes and no other offset. -/
theorem contains_iff_hasByte {d : Directive} (hd : d ∈ (parse text).template.directives) :
    d.span.contains offset = true ↔ d.span.HasByte offset := by
  refine (wide_of_mem_directives hd).contains_iff (hreach.imp_right fun hlen => ?_)
  have hlt := start_lt_of_mem_descendants (directive_mem_descendants hd) (by simp) hlen
  exact Nat.lt_of_lt_of_le hlt hlen

theorem answersAt_parse : (parse text).template.AnswersAt offset := by
  refine ⟨Template.isSome_describeAt?_iff, fun before d after hsplit hcontains => ?_⟩
  have hall : ∀ e ∈ before ++ d :: after, e ∈ (parse text).template.directives := by simp [hsplit]
  have hd := hall d (by simp)
  have ho := (contains_iff_hasByte hreach hd).mp hcontains
  refine ⟨describeAt?_of_hasByte hd ho, fun e he => ?_⟩
  rw [Directive.describeAt?_eq_none_iff, and_self]
  have hpairs := pairwise_directives text
  rw [hsplit] at hpairs
  obtain ⟨-, hafter, hbefore⟩ := List.pairwise_append.mp hpairs
  rcases List.mem_append.mp he with he | he
  · have hed : (Node.directive e).Before (.directive d) := hbefore e he d (by simp)
    exact hed.contains_left (wide_of_mem_directives (hall e (by simp [he]))) ho
  · have hde : (Node.directive d).Before (.directive e) := (List.pairwise_cons.mp hafter).1 e he
    exact hde.contains_right ho

theorem describeAt?_of_unanswered (h : Unanswered text offset) :
    (parse text).template.describeAt? offset = none := by
  rw [← Option.not_isSome_iff_eq_none, Template.isSome_describeAt?_iff]
  rintro ⟨d, hd, hcontains⟩
  exact not_hasByte_of_unanswered hd h ((contains_iff_hasByte hreach hd).mp hcontains)

end Answers

/-- **Answers.** What is shown at an offset is what the one directive shows that contains it. Outside
of directives nothing is shown. -/
theorem describeAt?_answers (text : String) (offset : Nat)
    (hreach : offset < maxOffset ∨ byteLength text.toList < 2 ^ 32) :
    (parse text).template.AnswersAt offset ∧
      (Unanswered text offset → (parse text).template.describeAt? offset = none) := by
  have hmax : offset < maxOffset ∨ byteLength text.toList ≤ maxOffset :=
    hreach.imp_right Nat.le_of_lt_succ
  exact ⟨answersAt_parse hmax, describeAt?_of_unanswered hmax⟩

/-- Two directives without a gap between them, of which the second one breaks off. -/
theorem describeAt?_answers_adjacent :
    let text := "é<#@ a#><#@ b c=<#"
    let tree := (parse text).template
    (9 < maxOffset ∨ byteLength text.toList < 2 ^ 32) ∧
      tree.directives.map (fun d => (d.span.start, d.span.stop)) = [(2, 9), (9, 17)] ∧
      (tree.AnswersAt 9 ∧ (Unanswered text 9 → tree.describeAt? 9 = none)) := by
  intro text tree
  have hreach : 9 < maxOffset ∨ byteLength text.toList < 2 ^ 32 := .inl (by decide)
  exact ⟨hreach, by decide +kernel, describeAt?_answers text 9 hreach⟩

end TextTemplate
