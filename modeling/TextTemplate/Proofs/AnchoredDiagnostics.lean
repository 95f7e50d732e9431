import TextTemplate.Analysis
import TextTemplate.Proofs.ByteCuts
import TextTemplate.Proofs.FaultPlaces
import TextTemplate.Proofs.Nesting
import TextTemplate.Proofs.SchemaViolations

/-!
# Diagnostics are anchored in the text

Every diagnostic of an analysis stands between two characters of the text, and its position is that
of its start (`Diagnostic.AnchoredIn`). For the faults of form this is so because they have the
places of tokens. The violations of schemas have the places of nodes: of the directive itself, of an
attribute or of the value of one. A directive that is checked has an end, so its attributes have
values, and there is no attribute whose missing value would have to be given a place.

Faults come in the order of the text. Violations come in the order of the directives, and within one
directive in the order of its attributes, after those that have the place of the directive
(`pairwise_check`). `anchored_ofText` puts all of it together.
-/
namespace TextTemplate

/-- The diagnostic stands where its place says: its ends are on character boundaries of the text,
and its position is that of its start. -/
structure Diagnostic.AnchoredIn (text : String) (e : Diagnostic) : Prop where
  start_onBoundary : onBoundary text.toList e.span.start = true
  stop_onBoundary : onBoundary text.toList e.span.stop = true
  stop_le : e.span.stop ≤ byteLength text.toList
  position_eq : e.position = (LineIndex.ofText text).position e.span.start

/-! ## Nodes -/

namespace Node

/-- What is below a node below another one is below that one. -/
theorem descendants_subset {n m : Node} (h : m ∈ n.descendants) :
    m.descendants ⊆ n.descendants := by
  refine forall_descendants (P := fun m => m.descendants ⊆ n.descendants) ?_
    (List.Subset.refl _) m h
  intro m hm child hchild k hk
  apply hm
  rw [descendants_eq]
  exact List.mem_cons_of_mem m (List.mem_flatMap.mpr ⟨child, hchild, hk⟩)

/-- A node in order contains all nodes below it. -/
theorem InOrder.containsSpan {n m : Node} (h : n.InOrder) (ht : ∀ t, n ≠ template t)
    (hm : m ∈ n.descendants) : n.span.containsSpan m.span = true := by
  have hdown := forall_descendants
    (P := fun m => m.InOrder ∧ (∀ t, m ≠ template t) ∧ n.span.containsSpan m.span = true) ?_
    ⟨h, ht, Span.containsSpan_iff.mpr ⟨Nat.le_refl _, Nat.le_refl _⟩⟩ m hm
  · exact hdown.2.2
  · rintro m ⟨hm, hmt, hn⟩ child hchild
    obtain ⟨hcontains, -, -⟩ := hm.nested hmt
    have hinner := Span.containsSpan_iff.mp (hcontains child hchild)
    have houter := Span.containsSpan_iff.mp hn
    refine ⟨hm.child hchild, not_template_of_mem_children hchild, ?_⟩
    exact Span.containsSpan_iff.mpr ⟨by omega, by omega⟩

end Node

section Tokens
variable {text : String} (hlen : byteLength text.toList ≤ maxOffset) {e : Diagnostic}
include hlen

/-- What reaches from one token to another is anchored by the two of them. -/
theorem anchoredIn_of_tokens {first last : Token} (hfirst : first ∈ (scan text).toList)
    (hlast : last ∈ (scan text).toList) (hstart : e.span.start = first.span.start)
    (hstop : e.span.stop = last.span.stop) (hposition : e.position = first.position) :
    e.AnchoredIn text := by
  have hfirst := placedIn_of_mem_scan hlen hfirst
  have hlast := placedIn_of_mem_scan hlen hlast
  refine ⟨?_, ?_, ?_, ?_⟩
  · rw [hstart]
    exact hfirst.start_onBoundary
  · rw [hstop]
    exact hlast.stop_onBoundary
  · rw [hstop]
    exact le_of_onBoundary hlast.stop_onBoundary
  · rw [hstart, hposition]
    exact hfirst.position_eq

theorem ToldOf.anchoredIn {first last : Token} (h : ToldOf (scan text).toList e first last) :
    e.AnchoredIn text :=
  anchoredIn_of_tokens hlen h.first_mem h.last_mem h.start_eq h.stop_eq h.position_eq

end Tokens

/-- The diagnostic has the place of the node. -/
def Diagnostic.At (e : Diagnostic) (n : Node) : Prop :=
  e.span = n.span ∧ e.position = n.position

/-- A diagnostic at a node of the tree is anchored by the first and the last token of the node. -/
theorem anchoredIn_of_at {text : String} (hlen : byteLength text.toList ≤ maxOffset) {n : Node}
    (hn : n ∈ (Node.template (parse text).template).descendants) (ht : ∀ t, n ≠ .template t)
    {e : Diagnostic} (he : e.At n) : e.AnchoredIn text := by
  have hspans := Node.spans_leaves ht (inOrder_of_mem_descendants hn)
  obtain ⟨first, hfirst, hstart, hposition⟩ := hspans.exists_head
  obtain ⟨last, hlast, hstop⟩ := hspans.exists_getLast
  have htoken : ∀ leaf ∈ n.leaves, ∃ t ∈ (scan text).toList, leaf = t.node := by
    intro leaf hleaf
    obtain ⟨t, ht, rfl⟩ :=
      (pairwise_leaves text).1 leaf (Node.mem_leaves_of_mem_descendants hn hleaf)
    exact ⟨t, List.mem_append_left _ ht, rfl⟩
  obtain ⟨s, hs, rfl⟩ := htoken first (List.mem_of_head? hfirst)
  obtain ⟨t, ht, rfl⟩ := htoken last (List.mem_of_getLast? hlast)
  rw [Token.span_node] at hstart hstop
  rw [Token.position_node] at hposition
  obtain ⟨hspan, hplace⟩ := he
  refine anchoredIn_of_tokens hlen hs ht ?_ ?_ (hplace.trans hposition.symm)
  · rw [hspan, hstart]
  · rw [hspan, hstop]

/-! ## Violations -/

namespace Directive
variable {d : Directive} {a : Attribute} {i : Nat} {e : Diagnostic}

/-- A violation by an attribute has the place of the attribute or of its value. -/
theorem exists_node_of_violation (ha : d.attributes[i]? = some a) (hvalue : a.value.isSome)
    (h : d.violation? a i = some e) : ∃ n ∈ (Node.attr a).descendants, e.At n := by
  have hself : Node.attr a ∈ (Node.attr a).descendants := by
    rw [Node.descendants_eq]
    exact List.mem_cons_self
  cases (violates_iff ha hvalue).mpr h with
  | duplicate | unexpected => exact ⟨_, hself, rfl, rfl⟩
  | @invalid _ value _ _ _ hvalue =>
    refine ⟨.capture value, mem_descendants_of_mem_children ?_, rfl, rfl⟩
    simp [Node.children, hvalue]

theorem mem_check_iff :
    e ∈ d.check ↔ d.isComplete = true ∧
      (e ∈ d.missing ∨ ∃ a i, d.attributes[i]? = some a ∧ d.violation? a i = some e) := by
  rw [check_eq]
  split
  case isTrue hcomplete =>
    simp only [List.mem_append, List.mem_filterMap, Prod.exists, List.mem_zipIdx_iff_getElem?,
      hcomplete, true_and]
  case isFalse hcomplete => simp [hcomplete]

theorem at_of_mem_missing (h : e ∈ d.missing) : e.At (.directive d) := by
  obtain ⟨known, -, rfl⟩ := List.mem_map.mp h
  exact ⟨rfl, rfl⟩

section InOrder
variable (hvalues : d.isComplete = true → ∀ a ∈ d.attributes, a.value.isSome)
include hvalues

/-- The violations of a directive have places of nodes at and below it. -/
theorem exists_node_of_mem_check (h : e ∈ d.check) :
    d.isComplete = true ∧ ∃ n ∈ (Node.directive d).descendants, e.At n := by
  obtain ⟨hcomplete, hmissing | ⟨a, i, ha, hviolation⟩⟩ := mem_check_iff.mp h
  · refine ⟨hcomplete, _, ?_, at_of_mem_missing hmissing⟩
    rw [Node.descendants_eq]
    exact List.mem_cons_self
  · have hmem := List.mem_of_getElem? ha
    obtain ⟨n, hn, hat⟩ := exists_node_of_violation ha (hvalues hcomplete a hmem) hviolation
    have hattr : Node.attr a ∈ (Node.directive d).descendants :=
      mem_descendants_of_mem_children (by simp [Node.children, hmem])
    exact ⟨hcomplete, n, Node.descendants_subset hattr hn, hat⟩

variable (hin : (Node.directive d).InOrder)
include hin

/-- The violations of a directive are inside of it. -/
theorem containsSpan_of_mem_check (h : e ∈ d.check) : d.span.containsSpan e.span = true := by
  obtain ⟨-, n, hn, hspan, -⟩ := exists_node_of_mem_check hvalues h
  rw [hspan]
  exact hin.containsSpan (by simp) hn

omit hvalues in
theorem pairwise_attributes :
    d.attributes.Pairwise fun a b => (Node.attr a).Before (Node.attr b) := by
  obtain ⟨-, hchildren, -⟩ := hin.nested (by simp)
  have hsub : (d.attributes.map Node.attr).Sublist (Node.directive d).children := by
    rw [Node.children, List.append_assoc]
    exact (List.sublist_append_left _ _).trans (List.sublist_append_right _ _)
  exact List.pairwise_map.mp (hchildren.sublist hsub)

/-- What an attribute violates is told of inside of it. -/
theorem bounds_of_violation (hcomplete : d.isComplete = true) (ha : d.attributes[i]? = some a)
    (h : d.violation? a i = some e) :
    (Node.attr a).span.start ≤ e.span.start ∧ e.span.stop ≤ (Node.attr a).span.stop := by
  have hmem := List.mem_of_getElem? ha
  obtain ⟨n, hn, hspan, -⟩ := exists_node_of_violation ha (hvalues hcomplete a hmem) h
  have hattr : (Node.attr a).InOrder := hin.child (by simp [Node.children, hmem])
  rw [hspan]
  exact Span.containsSpan_iff.mp (hattr.containsSpan (by simp) hn)

/-- Violations by attributes come in the order of the attributes. -/
theorem pairwise_violations (hcomplete : d.isComplete = true) :
    (d.attributes.zipIdx.filterMap fun (a, i) => d.violation? a i).Pairwise
      fun e f => e.span.start ≤ f.span.start := by
  have hattrs : (d.attributes.zipIdx.map Prod.fst).Pairwise fun a b =>
      (Node.attr a).Before (Node.attr b) := by
    rw [List.zipIdx_map_fst]
    exact pairwise_attributes hin
  have hitems := List.pairwise_map.mp hattrs
  refine List.pairwise_filterMap.mpr (hitems.imp_of_mem fun {x y} hx hy hxy e he f hf => ?_)
  have hfirst := bounds_of_violation hvalues hin hcomplete (List.mem_zipIdx_iff_getElem?.mp hx) he
  have hsecond := bounds_of_violation hvalues hin hcomplete (List.mem_zipIdx_iff_getElem?.mp hy) hf
  have hbefore : (Node.attr x.1).span.stop ≤ (Node.attr y.1).span.start := hxy
  have := e.span.start_le_stop
  omega

/-- The violations of a directive come in the order of the text: first those that have its place,
and then at most one inside of each attribute. -/
theorem pairwise_check : d.check.Pairwise fun e f => e.span.start ≤ f.span.start := by
  have hinside : ∀ e ∈ d.check, d.span.start ≤ e.span.start := fun e he =>
    (Span.containsSpan_iff.mp (containsSpan_of_mem_check hvalues hin he)).1
  rw [check_eq] at hinside ⊢
  split at hinside
  case isTrue hcomplete =>
    rw [if_pos hcomplete]
    refine List.pairwise_append.mpr ⟨?_, pairwise_violations hvalues hin hcomplete, ?_⟩
    · exact List.pairwise_map.mpr (List.pairwise_of_forall fun _ _ => Nat.le_refl _)
    · intro e he f hf
      rw [(at_of_mem_missing he).1]
      exact hinside f (List.mem_append_right _ hf)
  case isFalse hcomplete =>
    rw [if_neg hcomplete]
    exact .nil

end InOrder

end Directive

/-! ## Analyses -/

/-- What the places of the diagnostics of a text promise. -/
structure Analysis.Anchored (a : Analysis) (text : String) : Prop where
  /-- Every diagnostic stands between characters of the text, at the position of its start. -/
  anchoredIn : ∀ e ∈ a.diagnostics, e.AnchoredIn text
  /-- Faults of form start one after the other, and none reaches into the next one. -/
  pairwise_faults : a.faults.Pairwise fun e f =>
    e.span.start < f.span.start ∧ e.span.stop ≤ f.span.start
  /-- All but those for stray tokens have the place of one token. -/
  exists_token : ∀ e ∈ a.faults, e.cause ≠ .blockStartExpected →
    ∃ t ∈ (scan text).toList, e.span = t.span ∧ e.position = t.position
  /-- Only at the end of the file a fault has no width, and there it has none. -/
  length_eq_zero_iff : ∀ e ∈ a.faults,
    e.span.length = 0 ↔ e.span.start = byteLength text.toList
  /-- Violations of schemas come in the order of the text. -/
  pairwise_check : a.template.check.Pairwise fun e f => e.span.start ≤ f.span.start
  /-- Each is inside of its directive, which has an end. -/
  inside : ∀ d ∈ a.template.directives, ∀ e ∈ d.check,
    d.isComplete = true ∧ d.span.containsSpan e.span = true

section Texts
variable {text : String}

theorem directive_mem_descendants {d : Directive} (h : d ∈ (parse text).template.directives) :
    Node.directive d ∈ (Node.template (parse text).template).descendants := by
  obtain ⟨block, hblock, hd⟩ := List.mem_filterMap.mp h
  cases block with
  | code => contradiction
  | directive =>
    obtain rfl := Option.some.inj hd
    exact mem_descendants_of_mem_children (List.mem_map_of_mem hblock)

theorem inOrder_directive {d : Directive} (h : d ∈ (parse text).template.directives) :
    (Node.directive d).InOrder :=
  inOrder_of_mem_descendants (directive_mem_descendants h)

/-- Directives follow one another. -/
theorem pairwise_directives (text : String) :
    (parse text).template.directives.Pairwise fun d e => d.span.stop ≤ e.span.start := by
  have hblocks : (parse text).template.blocks.Pairwise fun b c => b.node.Before c.node :=
    List.pairwise_map.mp (spans_and_pairwise_blocks text).2
  refine List.pairwise_filterMap.mpr (hblocks.imp fun {b c} hbc d hd e he => ?_)
  cases b with
  | code => contradiction
  | directive =>
    cases c with
    | code => contradiction
    | directive =>
      obtain rfl := Option.some.inj hd
      obtain rfl := Option.some.inj he
      exact hbc

theorem pairwise_check_parse (text : String) :
    (parse text).template.check.Pairwise fun e f => e.span.start ≤ f.span.start := by
  have hinside : ∀ d ∈ (parse text).template.directives, ∀ e ∈ d.check,
      d.span.start ≤ e.span.start ∧ e.span.stop ≤ d.span.stop := fun d hd e he =>
    Span.containsSpan_iff.mp (Directive.containsSpan_of_mem_check
      (value_isSome_of_mem_directives hd) (inOrder_directive hd) he)
  refine List.pairwise_flatMap.mpr ⟨fun d hd => ?_, ?_⟩
  · exact Directive.pairwise_check (value_isSome_of_mem_directives hd) (inOrder_directive hd)
  · refine (pairwise_directives text).imp_of_mem fun {d d'} hd hd' hdd e he f hf => ?_
    have hfirst := hinside d hd e he
    have hsecond := hinside d' hd' f hf
    have := e.span.start_le_stop
    omega

/-- Every diagnostic of a text is anchored in it. -/
theorem anchoredIn_of_mem_diagnostics (hlen : byteLength text.toList ≤ maxOffset) {revision : Nat}
    {e : Diagnostic} (he : e ∈ (Analysis.ofText revision text).diagnostics) : e.AnchoredIn text := by
  rcases List.mem_append.mp he with he | he
  · obtain ⟨first, last, htold⟩ := (toldOf_parse hlen).1 e he
    exact htold.anchoredIn hlen
  · obtain ⟨d, hd, he⟩ := List.mem_flatMap.mp he
    obtain ⟨-, n, hn, hat⟩ :=
      Directive.exists_node_of_mem_check (value_isSome_of_mem_directives hd) he
    have hdirective := directive_mem_descendants hd
    have hblock : n ∈ (Block.directive d).node.descendants := hn
    have ht := Node.not_template_of_mem_descendants hblock
    exact anchoredIn_of_at hlen (Node.descendants_subset hdirective hn) ht hat

end Texts

/-- **Anchors.** The diagnostics of a text stand where their places say, the faults of form one
after the other and the violations of schemas within their directives. -/
theorem anchored_ofText (revision : Nat) (text : String) (hlen : byteLength text.toList < 2 ^ 32) :
    (Analysis.ofText revision text).Anchored text := by
  have hmax : byteLength text.toList ≤ maxOffset := Nat.le_of_lt_succ hlen
  obtain ⟨htold, hfaults⟩ := toldOf_parse hmax
  refine ⟨fun e he => anchoredIn_of_mem_diagnostics hmax he, hfaults, fun e he hcause => ?_,
    fun e he => ?_, pairwise_check_parse text, fun d hd e he => ?_⟩
  · obtain ⟨first, last, htold⟩ := htold e he
    exact ⟨first, htold.first_mem, htold.single_of_ne hcause, htold.position_eq⟩
  · obtain ⟨first, last, htold⟩ := htold e he
    exact htold.length_eq_zero_iff hmax
  · obtain ⟨hcomplete, -⟩ :=
      Directive.exists_node_of_mem_check (value_isSome_of_mem_directives hd) he
    exact ⟨hcomplete, Directive.containsSpan_of_mem_check (value_isSome_of_mem_directives hd)
      (inOrder_directive hd) he⟩

/-- A stray block end, a directive that breaks off in front of the next block, and a code block that
breaks off at the end of the file; and a value that is not known in between. -/
theorem anchored_ofText_mixed :
    let text := "é#>\n<#@ template language=\"Cobol\" #><#@ a b=\"<#= x"
    byteLength text.toList < 2 ^ 32 ∧
      (Analysis.ofText 0 text).faults.map (fun e => (e.code, e.span.start, e.span.length)) =
        [("T100", 2, 2), ("T107", 46, 3), ("T102", 51, 0)] ∧
      (Analysis.ofText 0 text).Anchored text := by
  intro text
  have hlen : byteLength text.toList < 2 ^ 32 := by decide +kernel
  exact ⟨hlen, by decide +kernel, anchored_ofText 0 text hlen⟩

end TextTemplate
