import TextTemplate.Proofs.AnchoredDiagnostics

/-!
# The bytes of nodes

Nodes in order have no byte in common, so of the parts of a directive, or of the blocks of a
template, a byte belongs to one at most (`Node.eq_of_hasByte`). That a span contains an offset says
a little less: an empty span contains the offset where it stands. The only empty tokens are values
without characters. Every node that starts with another token is wide, up to the bound of spans, and
contains its bytes and nothing else (`wide_of_mem_descendants`).
-/
namespace TextTemplate

theorem Span.start_le_of_contains {s : Span} {offset : Nat} (h : s.contains offset = true) :
    s.start ≤ offset := by
  rw [contains] at h
  split at h
  · exact Nat.le_of_eq (beq_iff_eq.mp h).symm
  · simp only [Bool.and_eq_true, decide_eq_true_eq] at h
    exact h.1

/-! ## Nodes in order -/

namespace Node
variable {nodes : List Node} {a b : Node} {offset : Nat}

/-- Nodes in order have no byte in common. -/
theorem eq_of_hasByte (h : nodes.Pairwise Before) (ha : a ∈ nodes) (hb : b ∈ nodes)
    (hoa : a.span.HasByte offset) (hob : b.span.HasByte offset) : a = b := by
  have hapart : ∀ {x y : Node}, x.Before y → x.span.HasByte offset → ¬ y.span.HasByte offset :=
    fun hxy hx hy => absurd hy.1 (Nat.not_le.mpr (Nat.lt_of_lt_of_le hx.2 hxy))
  have hall := List.Pairwise.forall_of_forall_of_flip
    (R := fun x y => x.span.HasByte offset → y.span.HasByte offset → x = y)
    (fun x _ _ _ => rfl) (h.imp fun hxy hx hy => absurd hy (hapart hxy hx))
    (h.imp fun hyx hx hy => absurd hx (hapart hyx hy))
  exact hall ha hb hoa hob

/-- A node does not contain the bytes of one in front of it, -/
theorem Before.contains_right (h : a.Before b) (ha : a.span.HasByte offset) :
    b.span.contains offset = false := by
  rw [← Bool.not_eq_true]
  intro hb
  exact absurd (Span.start_le_of_contains hb) (Nat.not_le.mpr (Nat.lt_of_lt_of_le ha.2 h))

/-- and if it is wide, none of those of one behind it. -/
theorem Before.contains_left (h : a.Before b) (ha : a.span.Wide) (hb : b.span.HasByte offset) :
    a.span.contains offset = false := by
  rw [← Bool.not_eq_true, ha.contains_iff (.inl hb.lt_maxOffset)]
  intro ha
  exact absurd hb.1 (Nat.not_le.mpr (Nat.lt_of_lt_of_le ha.2 h))

/-- Of wide nodes in order the one that has the byte is the only one that contains it. -/
theorem contains_iff_eq (h : nodes.Pairwise Before) (hwide : b.span.Wide) (ha : a ∈ nodes)
    (hb : b ∈ nodes) (hoa : a.span.HasByte offset) :
    b.span.contains offset = true ↔ b = a := by
  rw [hwide.contains_iff (.inl hoa.lt_maxOffset)]
  refine ⟨fun hob => eq_of_hasByte h hb ha hob hoa, ?_⟩
  rintro rfl
  exact hoa

end Node

/-! ## Nodes of a text -/

section Texts
variable {text : String} {n : Node}

theorem Token.kind_node (t : Token) : t.node.kind = .leaf t.kind := by
  unfold node
  split
  · rfl
  · split
    · rename_i hcode
      rw [hcode]
      rfl
    · rfl

theorem Token.eq_of_node_eq_capture {t u : Token} (h : t.node = .capture u) : t = u := by
  unfold node at h
  split at h
  · exact Node.capture.inj h
  · split at h <;> contradiction

theorem Token.eq_of_node_eq_token {t : Token} {m : Mark} (h : t.node = .token m) :
    t.toMark = m ∧ t.kind.isCapture = false := by
  unfold node at h
  split at h
  · contradiction
  · rename_i hcapture
    split at h
    · contradiction
    · exact ⟨Node.token.inj h, Bool.eq_false_iff.mpr hcapture⟩

/-- A token of the tree is wide, unless it is a value. -/
theorem wide_of_mem_leaves {leaf : Node}
    (h : leaf ∈ (Node.template (parse text).template).leaves)
    (hk : leaf.kind ≠ .leaf .attributeValue) : leaf.span.Wide := by
  obtain ⟨t, ht, rfl⟩ := (pairwise_leaves text).1 leaf h
  rw [Token.span_node]
  refine wide_of_mem_scan ht ?_
  rintro hvalue
  rw [Token.kind_node, hvalue] at hk
  contradiction

theorem kind_ne_of_mem_leaves {m : Mark}
    (h : Node.token m ∈ (Node.template (parse text).template).leaves) :
    m.kind ≠ .attributeValue := by
  obtain ⟨t, -, hnode⟩ := (pairwise_leaves text).1 _ h
  obtain ⟨rfl, hkind⟩ := Token.eq_of_node_eq_token hnode.symm
  intro hvalue
  rw [hvalue] at hkind
  contradiction

section First
variable (h : n ∈ (Node.template (parse text).template).descendants) (ht : ∀ t, n ≠ .template t)
include h ht

/-- A node is wide if its first token is. -/
theorem wide_of_mem_descendants {first : Node} (hfirst : n.leaves.head? = some first)
    (hk : first.kind ≠ .leaf .attributeValue) : n.span.Wide := by
  have hin := inOrder_of_mem_descendants h
  have hspans := Node.spans_leaves ht hin
  have hmem := List.mem_of_head? hfirst
  have hwide := wide_of_mem_leaves (Node.mem_leaves_of_mem_descendants h hmem) hk
  have hstart : first.span.start = n.span.start := by
    have hstart_eq := hspans.start_eq
    rw [hfirst] at hstart_eq
    exact Option.some.inj hstart_eq
  have hstop := (Span.containsSpan_iff.mp (hspans.containsSpan hin hmem)).2
  intro hlt
  exact hstart ▸ Nat.lt_of_lt_of_le (hwide (hstart ▸ hlt)) hstop

/-- A node starts before the end of the text. -/
theorem start_lt_of_mem_descendants (hlen : byteLength text.toList ≤ maxOffset) :
    n.span.start < byteLength text.toList := by
  obtain ⟨first, hfirst, hstart, -⟩ :=
    (Node.spans_leaves ht (inOrder_of_mem_descendants h)).exists_head
  have hleaf := Node.mem_leaves_of_mem_descendants h (List.mem_of_head? hfirst)
  obtain ⟨t, ht, rfl⟩ := (pairwise_leaves text).1 first hleaf
  rw [← hstart, Token.span_node]
  exact start_lt_of_mem_scanChars hlen ht

end First

/-- A block is wide, since it starts with a delimiter. -/
theorem wide_of_mem_blocks {block : Block} (h : block ∈ (parse text).template.blocks) :
    block.span.Wide := by
  have hnode : block.node ∈ (Node.template (parse text).template).descendants :=
    mem_descendants_of_mem_children (List.mem_map_of_mem h)
  have hfirst : ∃ m, block.node.leaves.head? = some (.token m) := by
    cases block with
    | directive d => exact ⟨d.start, by rw [Block.node, Node.leaves_directive]; rfl⟩
    | code b => exact ⟨b.start, by rw [Block.node, Node.leaves_codeBlock]; rfl⟩
  obtain ⟨m, hfirst⟩ := hfirst
  have hleaf := Node.mem_leaves_of_mem_descendants hnode (List.mem_of_head? hfirst)
  rw [← Block.span_node]
  refine wide_of_mem_descendants hnode (by cases block <;> simp [Block.node]) hfirst ?_
  simp [Node.kind, kind_ne_of_mem_leaves hleaf]

end Texts

end TextTemplate
