import TextTemplate.Proofs.Acceptance
import TextTemplate.Proofs.JoinedSpans
import TextTemplate.Proofs.Tiling

/-!
# Nodes inside of nodes

The span of a node is put together from the spans of some of its parts: an attribute covers all of
them, a directive only its start, its name, its last attribute and its end, and a template reaches
from its first block to the end of the file. That such a span contains all parts, the ones between
included, is due to their order. The leaves of a tree are tokens in the order of the text, so the
leaves of each node are in order (`Node.InOrder`). From this follows, from the leaves upwards, that
a node reaches from its first to its last leaf (`Node.spans_leaves`) and that its parts are in order
(`Node.pairwise_children`). A truncated node is no exception, since nothing is said of the parts
that it lacks.

`spans_nest` states this for every node of every tree, with the place of the node in the text.
-/
namespace TextTemplate

namespace Node

/-- The first node ends no later than the second one starts. -/
def Before (a b : Node) : Prop :=
  a.span.stop ≤ b.span.start

/-- The node reaches from the start of the first of the parts to the end of the last one, and its
position is that of the first. -/
structure Spans (n : Node) (parts : List Node) : Prop where
  start_eq : parts.head?.map (·.span.start) = some n.span.start
  stop_eq : parts.getLast?.map (·.span.stop) = some n.span.stop
  position_eq : parts.head?.map (·.position) = some n.position

/-- The leaves of the node are in order. -/
def InOrder (n : Node) : Prop :=
  n.leaves.Pairwise Before

section Spans
variable {n child : Node} {parts : List Node}

theorem Spans.exists_head (h : n.Spans parts) : ∃ first, parts.head? = some first ∧
    first.span.start = n.span.start ∧ first.position = n.position := by
  obtain ⟨first, hfirst, hstart⟩ := Option.map_eq_some_iff.mp h.start_eq
  have hposition := h.position_eq
  rw [hfirst] at hposition
  exact ⟨first, hfirst, hstart, Option.some.inj hposition⟩

theorem Spans.exists_getLast (h : n.Spans parts) :
    ∃ last, parts.getLast? = some last ∧ last.span.stop = n.span.stop :=
  Option.map_eq_some_iff.mp h.stop_eq

theorem spans_singleton (n : Node) : n.Spans [n] :=
  ⟨rfl, rfl, rfl⟩

/-- What a node reaches over can be broken up further. -/
theorem Spans.flatMap {f : Node → List Node} (h : n.Spans parts)
    (hparts : ∀ part ∈ parts, part.Spans (f part)) : n.Spans (parts.flatMap f) := by
  obtain ⟨first, hfirst, hstart, hposition⟩ := h.exists_head
  obtain ⟨last, hlast, hstop⟩ := h.exists_getLast
  have hf := hparts first (List.mem_of_head? hfirst)
  have hl := hparts last (List.mem_of_getLast? hlast)
  have hhead : (parts.flatMap f).head? = (f first).head? := by
    obtain ⟨rest, rfl⟩ := List.head?_eq_some_iff.mp hfirst
    obtain ⟨leaf, hleaf, -⟩ := hf.exists_head
    simp [hleaf]
  have hgetLast : (parts.flatMap f).getLast? = (f last).getLast? := by
    obtain ⟨init, rfl⟩ := List.getLast?_eq_some_iff.mp hlast
    obtain ⟨leaf, hleaf, -⟩ := hl.exists_getLast
    simp [hleaf]
  refine ⟨?_, ?_, ?_⟩
  · rw [hhead, hf.start_eq, hstart]
  · rw [hgetLast, hl.stop_eq, hstop]
  · rw [hhead, hf.position_eq, hposition]

/-- A node that reaches over parts in order contains them all. -/
theorem Spans.containsSpan (h : n.Spans parts) (hpairs : parts.Pairwise Before)
    (hchild : child ∈ parts) : n.span.containsSpan child.span = true := by
  obtain ⟨first, hfirst, hstart, -⟩ := h.exists_head
  obtain ⟨last, hlast, hstop⟩ := h.exists_getLast
  have hchild' := child.span.start_le_stop
  have hle : first.span.start ≤ child.span.start := by
    obtain ⟨rest, rfl⟩ := List.head?_eq_some_iff.mp hfirst
    rcases List.mem_cons.mp hchild with rfl | hrest
    · exact Nat.le_refl _
    · have hbefore := (List.pairwise_cons.mp hpairs).1 child hrest
      exact Nat.le_trans first.span.start_le_stop hbefore
  have hge : child.span.stop ≤ last.span.stop := by
    obtain ⟨init, rfl⟩ := List.getLast?_eq_some_iff.mp hlast
    rcases List.mem_append.mp hchild with hinit | hlast
    · have hbefore := (List.pairwise_append.mp hpairs).2.2 child hinit last (by simp)
      exact Nat.le_trans hbefore last.span.start_le_stop
    · obtain rfl := List.mem_singleton.mp hlast
      exact Nat.le_refl _
  rw [Span.containsSpan_iff]
  omega

end Spans

/-! ## From the leaves upwards -/

/-- The cover of the first part and of some of the others, the last one among them, reaches over all
parts if they are in order. -/
theorem spans_of_foldl_cover {n first : Node} {rest : List Node} {covered : List Span}
    (hspan : n.span = covered.foldl Span.cover first.span) (hposition : n.position = first.position)
    (hcovered : covered.Sublist (rest.map span))
    (hlast : covered.getLast? = (rest.map span).getLast?)
    (h : (first :: rest).Pairwise Before) : n.Spans (first :: rest) := by
  have hall : ((first :: rest).map span).Pairwise fun s t => s.stop ≤ t.start :=
    List.pairwise_map.mpr h
  have hpairs : (first.span :: covered).Pairwise fun s t => s.stop ≤ t.start :=
    hall.sublist (hcovered.cons_cons first.span)
  obtain ⟨hstart, hstop⟩ := Span.foldl_cover_of_pairwise hpairs
  have hends : (first.span :: covered).getLast? = ((first :: rest).map span).getLast? := by
    rw [List.map_cons, List.getLast?_cons, List.getLast?_cons, hlast]
  refine ⟨?_, ?_, ?_⟩
  · rw [hspan, hstart]
    rfl
  · have hgetLast := List.getLast?_eq_some_getLast (List.cons_ne_nil first.span covered)
    rw [hends, List.getLast?_map] at hgetLast
    obtain ⟨last, hlast, hspan'⟩ := Option.map_eq_some_iff.mp hgetLast
    rw [hlast, Option.map_some, hspan', hspan, hstop]
  · rw [hposition]
    rfl

theorem spans_children_codeBlock {b : CodeBlock} (h : (codeBlock b).children.Pairwise Before) :
    (codeBlock b).Spans (codeBlock b).children := by
  have hchildren : (codeBlock b).children =
      token b.start :: ((b.code.map code).toList ++ (b.stop.map token).toList) := rfl
  have hparts : (b.code.map (·.span)).toList ++ (b.stop.map (·.span)).toList =
      ((b.code.map code).toList ++ (b.stop.map token).toList).map span := by
    rcases b with ⟨start, _ | _, _ | _⟩ <;> rfl
  rw [hchildren] at h ⊢
  exact spans_of_foldl_cover rfl rfl (hparts ▸ .refl _) (by rw [hparts]) h

theorem spans_children_attr {a : Attribute} (h : (attr a).children.Pairwise Before) :
    (attr a).Spans (attr a).children := by
  have hchildren : (attr a).children =
      capture a.name :: ((a.equals.map token).toList ++ (a.openQuote.map token).toList ++
        (a.value.map capture).toList ++ (a.closeQuote.map token).toList) := rfl
  have hparts : a.partSpans =
      ((a.equals.map token).toList ++ (a.openQuote.map token).toList ++
        (a.value.map capture).toList ++ (a.closeQuote.map token).toList).map span := by
    rcases a with ⟨name, _ | _, _ | _, _ | _, _ | _⟩ <;> rfl
  rw [hchildren] at h ⊢
  exact spans_of_foldl_cover rfl rfl (hparts ▸ .refl _) (by rw [hparts]) h

theorem spans_children_directive {d : Directive} (h : (directive d).children.Pairwise Before) :
    (directive d).Spans (directive d).children := by
  have hchildren : (directive d).children =
      token d.start :: (capture d.name :: (d.attributes.map attr ++ (d.stop.map token).toList)) :=
    rfl
  have hstop : ((d.stop.map token).toList).map span = (d.stop.map (·.span)).toList := by
    rcases d with ⟨_, _, _, _ | _⟩ <;> rfl
  have hattrs : (d.attributes.map attr).map span = d.attributes.map (·.span) := by
    rw [List.map_map]
    rfl
  have hparts : (capture d.name :: (d.attributes.map attr ++ (d.stop.map token).toList)).map span =
      d.name.span :: (d.attributes.map (·.span) ++ (d.stop.map (·.span)).toList) := by
    rw [List.map_cons, List.map_append, hattrs, hstop]
    rfl
  -- of the attributes only the last one is covered
  have hlast : ((d.attributes.getLast?.map (·.span)).toList).Sublist
      (d.attributes.map (·.span)) := by
    rw [← List.getLast?_map]
    cases hl : (d.attributes.map (·.span)).getLast? with
    | none => exact List.nil_sublist _
    | some s => exact List.singleton_sublist.mpr (List.mem_of_getLast? hl)
  have hspan : (directive d).span =
      (d.name.span :: ((d.attributes.getLast?.map (·.span)).toList ++
        (d.stop.map (·.span)).toList)).foldl Span.cover d.start.span := rfl
  rw [hchildren] at h ⊢
  refine spans_of_foldl_cover hspan rfl ?_ ?_ h
  · rw [hparts]
    exact (hlast.append (.refl _)).cons_cons _
  · rw [hparts, List.getLast?_cons, List.getLast?_cons, List.getLast?_append, List.getLast?_append,
      List.getLast?_map]
    cases d.attributes.getLast? <;> rfl

/-- An inner node reaches over its parts if they are in order. -/
theorem spans_children {n : Node} (hn : n.isTerminal = false) (ht : ∀ t, n ≠ template t)
    (h : n.children.Pairwise Before) : n.Spans n.children := by
  cases n with
  | template t => exact absurd rfl (ht t)
  | codeBlock b => exact spans_children_codeBlock h
  | directive d => exact spans_children_directive h
  | attr a => exact spans_children_attr h
  | capture | code | token => contradiction

section Order
variable {n : Node}

theorem leaves_of_inner (hn : n.isTerminal = false) : n.leaves = n.children.flatMap leaves := by
  rw [leaves_eq, hn]
  rfl

theorem InOrder.child {child : Node} (h : n.InOrder) (hchild : child ∈ n.children) :
    child.InOrder := by
  have hn : n.isTerminal = false := by
    cases n <;> first | rfl | contradiction
  rw [InOrder, leaves_of_inner hn, List.pairwise_flatMap] at h
  exact h.1 child hchild

/-- The parts of a node are in order if its leaves are. -/
theorem pairwise_children (hn : n.isTerminal = false)
    (hchildren : ∀ child ∈ n.children, child.Spans child.leaves) (h : n.InOrder) :
    n.children.Pairwise Before := by
  rw [InOrder, leaves_of_inner hn, List.pairwise_flatMap] at h
  refine h.2.imp_of_mem fun {a b} ha hb hab => ?_
  -- the last leaf of one part comes before the first leaf of the other
  obtain ⟨last, hlast, hstop⟩ := (hchildren a ha).exists_getLast
  obtain ⟨first, hfirst, hstart, -⟩ := (hchildren b hb).exists_head
  have hbefore := hab last (List.mem_of_getLast? hlast) first (List.mem_of_head? hfirst)
  rwa [Before, hstop, hstart] at hbefore

theorem not_template_of_mem_children {child : Node} (h : child ∈ n.children) (t : Template) :
    child ≠ template t := by
  have hlt := height_lt_of_mem_children h
  have hle : n.height ≤ 3 := by cases n <;> simp [height]
  rintro rfl
  have htemplate : (template t).height = 3 := rfl
  omega

/-- A node whose leaves are in order reaches from the first to the last of them. -/
theorem spans_leaves (ht : ∀ t, n ≠ template t) (h : n.InOrder) : n.Spans n.leaves := by
  induction hh : n.height using Nat.strongRecOn generalizing n with
  | ind height ih =>
    cases hn : n.isTerminal with
    | true =>
      rw [leaves_of_isTerminal hn]
      exact spans_singleton n
    | false =>
      have hchildren : ∀ child ∈ n.children, child.Spans child.leaves := by
        intro child hchild
        have hlt := hh ▸ height_lt_of_mem_children hchild
        exact ih child.height hlt (not_template_of_mem_children hchild) (h.child hchild) rfl
      rw [leaves_of_inner hn]
      exact (spans_children hn ht (pairwise_children hn hchildren h)).flatMap hchildren

end Order

theorem children_of_isTerminal {n : Node} (h : n.isTerminal = true) : n.children = [] := by
  cases n <;> first | rfl | contradiction

/-- A node below the template contains its parts, and they are in order. -/
theorem InOrder.nested {n : Node} (h : n.InOrder) (ht : ∀ t, n ≠ template t) :
    (∀ child ∈ n.children, n.span.containsSpan child.span = true) ∧
      n.children.Pairwise Before ∧ (n.isTerminal = false → n.Spans n.children) := by
  cases hn : n.isTerminal with
  | true => simp [children_of_isTerminal hn]
  | false =>
    have hpairs := pairwise_children hn
      (fun child hchild => spans_leaves (not_template_of_mem_children hchild) (h.child hchild)) h
    have hspans := spans_children hn ht hpairs
    exact ⟨fun child => hspans.containsSpan hpairs, hpairs, fun _ => hspans⟩

end Node

/-! ## Templates -/

theorem Token.position_node (t : Token) : t.node.position = t.position := by
  unfold node
  split
  · rfl
  · split <;> rfl

theorem Block.span_node (b : Block) : b.node.span = b.span := by
  cases b <;> rfl

theorem Block.position_node (b : Block) : b.node.position = b.position := by
  cases b <;> rfl

section Templates
variable {text : String}

/-- The leaves of the tree of a text are tokens of it, and in order with the end of the file. -/
theorem pairwise_leaves (text : String) :
    (∀ leaf ∈ (Node.template (parse text).template).leaves,
      ∃ t ∈ (scan text).tokens, leaf = t.node) ∧
      ((Node.template (parse text).template).leaves ++
        [Node.token (parse text).template.endOfFile]).Pairwise Node.Before := by
  obtain ⟨used, hused, hleaves, -⟩ := ParsedTemplate.leaves_ofStream (scan text)
  have hpairs : (scan text).toList.Pairwise fun s t => s.span.stop ≤ t.span.start :=
    (TokenStream.pairwise_ofLexemes _ _ _).2
  rw [parse, hleaves]
  constructor
  · intro leaf hleaf
    obtain ⟨t, ht, rfl⟩ := List.mem_map.mp hleaf
    exact ⟨t, hused.subset ht, rfl⟩
  · obtain ⟨hfirst, -, hend⟩ := List.pairwise_append.mp hpairs
    refine List.pairwise_append.mpr ⟨?_, List.pairwise_singleton _ _, ?_⟩
    · refine List.pairwise_map.mpr ((hfirst.sublist hused).imp fun {s t} hst => ?_)
      rwa [Node.Before, Token.span_node, Token.span_node]
    · intro leaf hleaf last hlast
      obtain ⟨t, ht, rfl⟩ := List.mem_map.mp hleaf
      obtain rfl := List.mem_singleton.mp hlast
      rw [Node.Before, Token.span_node]
      exact hend t (hused.subset ht) _ (List.mem_singleton_self _)

theorem inOrder_template (text : String) : (Node.template (parse text).template).InOrder :=
  (List.pairwise_append.mp (pairwise_leaves text).2).1

/-- The nodes of a tree are in order. -/
theorem inOrder_of_mem_descendants {n : Node}
    (h : n ∈ (Node.template (parse text).template).descendants) : n.InOrder :=
  Node.forall_descendants (fun _ hn _ hchild => hn.child hchild) (inOrder_template text) n h

theorem position_node_of_mem_scan {t : Token} (hlen : byteLength text.toList ≤ maxOffset)
    (h : t ∈ (scan text).toList) :
    t.node.position = (LineIndex.ofText text).position t.node.span.start := by
  rw [Token.position_node, Token.span_node]
  exact (placedIn_of_mem_scan hlen h).position_eq

/-- Every node of a tree but the template is placed by its first leaf. -/
theorem position_of_mem_descendants {n : Node} (hlen : byteLength text.toList ≤ maxOffset)
    (h : n ∈ (Node.template (parse text).template).descendants) (ht : ∀ t, n ≠ .template t) :
    n.leaves.head?.map (·.position) = some n.position ∧
      n.position = (LineIndex.ofText text).position n.span.start := by
  have hspans := Node.spans_leaves ht (inOrder_of_mem_descendants h)
  obtain ⟨first, hfirst, hstart, hposition⟩ := hspans.exists_head
  have hleaf := Node.mem_leaves_of_mem_descendants h (List.mem_of_head? hfirst)
  obtain ⟨t, htokens, rfl⟩ := (pairwise_leaves text).1 first hleaf
  refine ⟨hspans.position_eq, ?_⟩
  rw [← hposition, ← hstart]
  exact position_node_of_mem_scan hlen (List.mem_append_left _ htokens)

theorem mem_descendants_of_mem_children {n child : Node} (h : child ∈ n.children) :
    child ∈ n.descendants := by
  rw [Node.descendants_eq]
  refine List.mem_cons_of_mem n (List.mem_flatMap.mpr ⟨child, h, ?_⟩)
  rw [Node.descendants_eq]
  exact List.mem_cons_self

/-- A node of a tree is the template or a node of one of its blocks. -/
theorem eq_or_not_template {t : Template} {n : Node} (h : n ∈ (Node.template t).descendants) :
    n = .template t ∨ ∀ t', n ≠ .template t' := by
  rw [Node.descendants_eq] at h
  rcases List.mem_cons.mp h with rfl | h
  · exact .inl rfl
  · obtain ⟨child, hchild, hn⟩ := List.mem_flatMap.mp h
    obtain ⟨block, -, rfl⟩ := List.mem_map.mp hchild
    exact .inr (Node.not_template_of_mem_descendants hn)

/-- The blocks of a text end no later than its end of the file starts. -/
theorem stop_le_of_mem_children {child : Node}
    (h : child ∈ (Node.template (parse text).template).children) :
    child.span.stop ≤ (parse text).template.endOfFile.span.start := by
  have hchild := mem_descendants_of_mem_children h
  have hspans := Node.spans_leaves (Node.not_template_of_mem_children h)
    (inOrder_of_mem_descendants hchild)
  obtain ⟨last, hlast, hstop⟩ := hspans.exists_getLast
  have hleaf := Node.mem_leaves_of_mem_descendants hchild (List.mem_of_getLast? hlast)
  have hbefore := (List.pairwise_append.mp (pairwise_leaves text).2).2.2 last hleaf _
    (List.mem_singleton_self _)
  exact hstop ▸ hbefore

/-- A template reaches over its blocks and the end of the file. -/
theorem spans_template {t : Template}
    (h : ∀ child ∈ (Node.template t).children, child.span.stop ≤ t.endOfFile.span.start) :
    (Node.template t).Spans ((Node.template t).children ++ [.token t.endOfFile]) := by
  rcases t with ⟨_ | ⟨first, rest⟩, endOfFile⟩
  · exact ⟨rfl, rfl, rfl⟩
  · have hfirst : first.span.stop ≤ endOfFile.span.start :=
      first.span_node ▸ h first.node (by simp [Node.children])
    have hle := first.span.start_le_stop
    have hend := endOfFile.span.start_le_stop
    have hspan : (Node.template ⟨first :: rest, endOfFile⟩).span =
        .ofBounds first.span.start endOfFile.span.stop := rfl
    refine ⟨?_, ?_, ?_⟩
    · rw [hspan, Span.start_ofBounds first.span.start_le]
      simp [Node.children, Block.span_node]
    · rw [hspan, Span.stop_ofBounds (by omega) endOfFile.span.stop_le]
      simp [Node.span]
    · exact congrArg some first.position_node

/-- Blocks reach from their first to their last leaf, and follow one another. -/
theorem spans_and_pairwise_blocks (text : String) :
    (∀ child ∈ (Node.template (parse text).template).children, child.Spans child.leaves) ∧
      (Node.template (parse text).template).children.Pairwise Node.Before := by
  have hchildren : ∀ child ∈ (Node.template (parse text).template).children,
      child.Spans child.leaves := fun child hchild =>
    Node.spans_leaves (Node.not_template_of_mem_children hchild)
      (inOrder_of_mem_descendants (mem_descendants_of_mem_children hchild))
  exact ⟨hchildren, Node.pairwise_children rfl hchildren (inOrder_template text)⟩

/-- The template of a text reaches over its blocks and the end of the file, which are in order, and
is placed by its first leaf or the end of the file. -/
theorem template_nested (hlen : byteLength text.toList ≤ maxOffset) :
    let root := Node.template (parse text).template
    root.Spans (root.children ++ [.token (parse text).template.endOfFile]) ∧
      (root.children ++ [Node.token (parse text).template.endOfFile]).Pairwise Node.Before ∧
      (root.leaves ++ [Node.token (parse text).template.endOfFile]).head?.map (·.position) =
        some root.position ∧
      root.position = (LineIndex.ofText text).position root.span.start := by
  intro root
  obtain ⟨hchildren, hpairs⟩ := spans_and_pairwise_blocks text
  have hspans : root.Spans (root.children ++ [.token (parse text).template.endOfFile]) :=
    spans_template fun child hchild => stop_le_of_mem_children hchild
  have hall : (root.children ++ [Node.token (parse text).template.endOfFile]).Pairwise
      Node.Before := by
    refine List.pairwise_append.mpr ⟨hpairs, List.pairwise_singleton _ _, ?_⟩
    intro child hchild last hlast
    obtain rfl := List.mem_singleton.mp hlast
    exact stop_le_of_mem_children hchild
  -- with the end of the file as one more part, the template is like any other node
  have hleaves : root.Spans (root.leaves ++ [.token (parse text).template.endOfFile]) := by
    have hflat := hspans.flatMap (f := Node.leaves) fun part hpart => by
      rcases List.mem_append.mp hpart with hchild | hlast
      · exact hchildren part hchild
      · obtain rfl := List.mem_singleton.mp hlast
        rw [Node.leaves_token]
        exact Node.spans_singleton _
    rw [List.flatMap_append, ← Node.leaves_of_inner (n := root) rfl] at hflat
    simpa using hflat
  refine ⟨hspans, hall, hleaves.position_eq, ?_⟩
  obtain ⟨first, hfirst, hstart, hposition⟩ := hleaves.exists_head
  rw [← hposition, ← hstart]
  rcases List.mem_append.mp (List.mem_of_head? hfirst) with hleaf | hend
  · obtain ⟨t, ht, rfl⟩ := (pairwise_leaves text).1 first hleaf
    exact position_node_of_mem_scan hlen (List.mem_append_left _ ht)
  · obtain rfl := List.mem_singleton.mp hend
    have hlast : (scan text).endOfFile ∈ (scan text).toList := by simp [TokenStream.toList]
    exact (placedIn_of_mem_scan hlen hlast).position_eq

end Templates

/-- **Nesting.** Every node of the tree of a text contains its parts, which are in order, and is
placed by its first leaf; all but the template reach exactly from their first to their last part.
The template reaches to the end of the text. -/
theorem spans_nest (text : String) (hlen : byteLength text.toList < 2 ^ 32) :
    let tree := (parse text).template
    (∀ n ∈ (Node.template tree).descendants,
      (∀ child ∈ n.children, n.span.containsSpan child.span = true) ∧
      n.children.Pairwise Node.Before ∧
      (n ≠ .template tree → n.isTerminal = false → n.Spans n.children) ∧
      n.position = (n.leaves.head?.map (·.position)).getD tree.endOfFile.position ∧
      n.position = (LineIndex.ofText text).position n.span.start) ∧
    tree.span.start =
      ((Node.template tree).children.head?.map (·.span.start)).getD (byteLength text.toList) ∧
    tree.span.stop = byteLength text.toList := by
  intro tree
  have hmax : byteLength text.toList ≤ maxOffset := Nat.le_of_lt_succ hlen
  obtain ⟨hstart, hlength⟩ := span_endOfFile hmax
  obtain ⟨hspans, hall, hfirst, hposition⟩ := template_nested hmax
  refine ⟨fun n hn => ?_, ?_, ?_⟩
  · rcases eq_or_not_template hn with rfl | ht
    · refine ⟨fun child hchild => hspans.containsSpan hall (List.mem_append_left _ hchild),
        (List.pairwise_append.mp hall).1, fun hne => absurd rfl hne, ?_, hposition⟩
      cases hleaves : (Node.template tree).leaves with
      | nil | cons =>
        rw [hleaves] at hfirst
        exact (Option.some.inj hfirst).symm
    · obtain ⟨hcontains, hpairs, hparts⟩ := (inOrder_of_mem_descendants hn).nested ht
      obtain ⟨hfirst, hposition⟩ := position_of_mem_descendants hmax hn ht
      exact ⟨hcontains, hpairs, fun _ => hparts, by rw [hfirst]; rfl, hposition⟩
  · have hbounds := hspans.start_eq
    cases hchildren : (Node.template tree).children with
    | nil =>
      rw [hchildren] at hbounds
      exact (Option.some.inj hbounds).symm.trans hstart
    | cons child children =>
      rw [hchildren] at hbounds
      exact (Option.some.inj hbounds).symm
  · have hbounds := hspans.stop_eq
    rw [List.getLast?_concat] at hbounds
    have hstop : (scan text).endOfFile.span.stop = byteLength text.toList := by
      rw [Span.stop, hstart, hlength]
      omega
    exact (Option.some.inj hbounds).symm.trans hstop

/-- An attribute that lacks its value, a directive that lacks its end, and a multi-byte character in
front of both. -/
theorem spans_nest_truncated :
    let text := "é<#@ a\nb=\"<#x"
    let tree := (parse text).template
    byteLength text.toList < 2 ^ 32 ∧
      (Node.template tree).children.map (fun n => (n.span.start, n.span.stop)) =
        [(2, 11), (11, 14)] ∧
      ∀ n ∈ (Node.template tree).descendants,
        (∀ child ∈ n.children, n.span.containsSpan child.span = true) ∧
        n.position = (LineIndex.ofText text).position n.span.start := by
  intro text tree
  have hlen : byteLength text.toList < 2 ^ 32 := by decide +kernel
  refine ⟨hlen, by decide +kernel, fun n hn => ?_⟩
  obtain ⟨hcontains, -, -, -, hposition⟩ := (spans_nest text hlen).1 n hn
  exact ⟨hcontains, hposition⟩

end TextTemplate
