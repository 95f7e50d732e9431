import TextTemplate.Proofs.Places
import TextTemplate.Proofs.Recasting

/-!
# Moving a template to another place

A `Relocation` says where spans and positions go. It moves tokens, faults and trees by moving every
place in them. As a `Recasting` it commutes with reading: it does not matter whether tokens are
moved before they are read or the result is moved afterwards (`ParsedTemplate.ofStream_relocate`).

Spans of inner nodes and of runs of stray tokens are covers of other spans. They move along if the
relocation `Respects` covers, at least for the spans that occur.
-/
namespace TextTemplate

/-- Where spans and positions go. -/
structure Relocation where
  span : Span → Span
  position : Position → Position

namespace Relocation
variable (r : Relocation)

/-- What stands in a second part goes to the end of the first part, which is at `base`. -/
def shift (base : Cursor) : Relocation where
  span s := s.shift base.offset
  position p := p.shift base.position

def mark (m : Mark) : Mark :=
  ⟨m.kind, r.span m.span, r.position m.position⟩

def token (t : Token) : Token :=
  ⟨r.mark t.toMark, t.text⟩

def fault (d : Diagnostic) : Diagnostic :=
  ⟨d.cause, r.span d.span, r.position d.position⟩

def attr (a : Attribute) : Attribute :=
  ⟨r.token a.name, a.equals.map r.mark, a.openQuote.map r.mark, a.value.map r.token,
    a.closeQuote.map r.mark⟩

def codeBlock (b : CodeBlock) : CodeBlock :=
  ⟨r.mark b.start, b.code.map r.mark, b.stop.map r.mark⟩

def directive (d : Directive) : Directive :=
  ⟨r.mark d.start, r.token d.name, d.attributes.map r.attr, d.stop.map r.mark⟩

def block : Block → Block
  | .directive d => .directive (r.directive d)
  | .code b => .code (r.codeBlock b)

/-- A fault at `next` goes to where it would be at `next'`. The tokens need not be of one kind: what
follows a segment is seen in faults only. -/
def Sends (next next' : Token) : Prop :=
  ∀ cause, next'.fault cause = r.fault (next.fault cause)

theorem sends_token (t : Token) : r.Sends t (r.token t) :=
  fun _ => rfl

/-- The relocation as a recasting that leaves texts as they are. -/
def recasting : Recasting where
  mark := r.mark
  text := id
  fault := r.fault
  kind_mark _ := rfl
  fault_eq _ _ := rfl

theorem block_recasting : r.recasting.block = r.block := by
  funext b
  cases b <;> rfl

/-! ## Covers -/

/-- Spans with the property stay so under covers, and their covers move along with them. -/
structure Respects (P : Span → Prop) : Prop where
  cover : ∀ {s t : Span}, P s → P t → P (s.cover t)
  span_cover : ∀ {s t : Span}, P s → P t → r.span (s.cover t) = (r.span s).cover (r.span t)

theorem shift_respects (base : Cursor) : (shift base).Respects (Span.Fits base.offset) where
  cover := Span.Fits.cover
  span_cover := Span.Fits.shift_cover

section Covers
variable {r} {P : Span → Prop} (hr : r.Respects P)
include hr

theorem Respects.foldl_cover {first : Span} {spans : List Span} (hfirst : P first)
    (hspans : ∀ s ∈ spans, P s) :
    r.span (spans.foldl Span.cover first) =
      (spans.map r.span).foldl Span.cover (r.span first) := by
  induction spans generalizing first with
  | nil => rfl
  | cons s spans ih =>
    obtain ⟨hs, hspans⟩ := List.forall_mem_cons.mp hspans
    rw [List.foldl_cons, ih (hr.cover hfirst hs) hspans, hr.span_cover hfirst hs]
    rfl

theorem Respects.strayFault {tokens : List Token} (h : ∀ t ∈ tokens, P t.span) :
    strayFault (tokens.map r.token) = (strayFault tokens).map r.fault := by
  cases tokens with
  | nil => rfl
  | cons first rest =>
    obtain ⟨hfirst, hrest⟩ := List.forall_mem_cons.mp h
    have hspans : ∀ s ∈ rest.map (·.span), P s := by simpa using hrest
    have hcover := hr.foldl_cover hfirst hspans
    rw [List.map_map] at hcover
    simp only [TextTemplate.strayFault, List.map_cons, List.map_map, Option.map_some, fault, hcover]
    rfl

theorem Respects.of_foldl_cover {first : Span} {spans : List Span} (hfirst : P first)
    (hspans : ∀ s ∈ spans, P s) : P (spans.foldl Span.cover first) := by
  induction spans generalizing first with
  | nil => exact hfirst
  | cons s spans ih =>
    obtain ⟨hs, hspans⟩ := List.forall_mem_cons.mp hspans
    exact ih (hr.cover hfirst hs) hspans

end Covers

/-! ## Nodes -/

def template (t : Template) : Template :=
  ⟨t.blocks.map r.block, r.mark t.endOfFile⟩

def node : Node → Node
  | .template t => .template (r.template t)
  | .codeBlock b => .codeBlock (r.codeBlock b)
  | .directive d => .directive (r.directive d)
  | .attr a => .attr (r.attr a)
  | .capture t => .capture (r.token t)
  | .code m => .code (r.mark m)
  | .token m => .token (r.mark m)

theorem node_block (b : Block) : (r.block b).node = r.node b.node := by
  cases b <;> rfl

theorem children_node (n : Node) : (r.node n).children = n.children.map r.node := by
  cases n with
  | template t =>
    simp only [node, template, Node.children, List.map_map]
    exact List.map_congr_left fun b _ => r.node_block b
  | codeBlock b =>
    simp only [node, codeBlock, Node.children, List.map_append, Option.toList_map, List.map_map,
      List.map_cons, List.map_nil]
    rfl
  | directive d =>
    simp only [node, directive, Node.children, List.map_append, Option.toList_map, List.map_map,
      List.map_cons, List.map_nil]
    rfl
  | attr a =>
    simp only [node, attr, Node.children, List.map_append, Option.toList_map, List.map_map,
      List.map_cons, List.map_nil]
    rfl
  | capture | code | token => rfl

/-- The nodes below a node that is moved are those below it, moved. -/
theorem unstack_map (nodes : List Node) :
    Node.unstack (nodes.map r.node) = (Node.unstack nodes).map r.node := by
  fun_induction Node.unstack nodes with
  | case1 => simp [Node.unstack]
  | case2 n stack ih =>
    rw [List.map_append, ← children_node] at ih
    rw [List.map_cons, Node.unstack, ih, List.map_cons]

theorem descendants_node (n : Node) :
    (r.node n).descendants = n.descendants.map r.node :=
  r.unstack_map [n]

theorem position_node (n : Node) (h : ∀ t, n ≠ .template t) :
    (r.node n).position = r.position n.position := by
  cases n with
  | template t => exact absurd rfl (h t)
  | _ => rfl

theorem kind_node (n : Node) : (r.node n).kind = n.kind := by
  cases n <;> rfl

theorem node_token (t : Token) : (r.token t).node = r.node t.node := by
  by_cases h : t.kind.isCapture
  · rw [Token.node_of_isCapture h, Token.node_of_isCapture (t := r.token t) h]
    rfl
  · by_cases hc : t.kind = .code
    · rw [Token.node_of_code hc, Token.node_of_code (t := r.token t) hc]
      rfl
    · have h : t.kind.isCapture = false := Bool.eq_false_iff.mpr h
      rw [Token.node_eq_token h hc, Token.node_eq_token (t := r.token t) h hc]
      rfl

section Fixed
variable {r}

theorem map_eq_self {α : Type} {f : α → α} {o : Option α} (h : ∀ a ∈ o, f a = a) :
    o.map f = o := by
  cases o with
  | none => rfl
  | some a => exact congrArg some (h a rfl)

theorem attr_eq_self {a : Attribute} (h : ∀ leaf ∈ (Node.attr a).leaves, r.node leaf = leaf) :
    r.attr a = a := by
  rw [Node.leaves_attr] at h
  apply Attribute.ext
  · exact Node.capture.inj (h (.capture a.name) (by simp))
  · exact map_eq_self fun m hm => Node.token.inj (h (.token m) (by simp [Option.mem_def.mp hm]))
  · exact map_eq_self fun m hm => Node.token.inj (h (.token m) (by simp [Option.mem_def.mp hm]))
  · exact map_eq_self fun t ht => Node.capture.inj (h (.capture t) (by simp [Option.mem_def.mp ht]))
  · exact map_eq_self fun m hm => Node.token.inj (h (.token m) (by simp [Option.mem_def.mp hm]))

/-- A block stays as it is if its leaves do. -/
theorem block_eq_self {b : Block} (h : ∀ leaf ∈ b.node.leaves, r.node leaf = leaf) :
    r.block b = b := by
  cases b with
  | code b =>
    rw [Block.node, Node.leaves_codeBlock] at h
    apply congrArg Block.code
    apply CodeBlock.ext
    · exact Node.token.inj (h (.token b.start) (by simp))
    · exact map_eq_self fun m hm => Node.code.inj (h (.code m) (by simp [Option.mem_def.mp hm]))
    · exact map_eq_self fun m hm => Node.token.inj (h (.token m) (by simp [Option.mem_def.mp hm]))
  | directive d =>
    rw [Block.node, Node.leaves_directive] at h
    apply congrArg Block.directive
    apply Directive.ext
    · exact Node.token.inj (h (.token d.start) (by simp))
    · exact Node.capture.inj (h (.capture d.name) (by simp))
    · refine (List.map_congr_left fun a ha => ?_).trans (List.map_id _)
      apply attr_eq_self
      intro leaf hleaf
      exact h leaf (List.mem_append_left _ (List.mem_append_right _
        (List.mem_flatMap.mpr ⟨a, ha, hleaf⟩)))
    · exact map_eq_self fun m hm => Node.token.inj (h (.token m) (by simp [Option.mem_def.mp hm]))

end Fixed

section NodeSpans
variable {r} {P : Span → Prop} (hr : r.Respects P)
include hr

theorem Respects.span_attr {a : Attribute} (h : ∀ leaf ∈ (Node.attr a).leaves, P leaf.span) :
    P a.span ∧ (r.attr a).span = r.span a.span := by
  have hleaves : (Node.attr a).leaves.map Node.span = a.name.span :: a.partSpans := by
    rw [Node.leaves_attr]
    rcases a with ⟨name, _ | _, _ | _, _ | _, _ | _⟩ <;> rfl
  have hparts : ∀ s ∈ a.name.span :: a.partSpans, P s := by
    rw [← hleaves]
    exact fun s hs => by
      obtain ⟨leaf, hleaf, rfl⟩ := List.mem_map.mp hs
      exact h leaf hleaf
  have hmap : (r.attr a).partSpans = a.partSpans.map r.span := by
    rcases a with ⟨name, _ | _, _ | _, _ | _, _ | _⟩ <;> rfl
  obtain ⟨hname, hparts⟩ := List.forall_mem_cons.mp hparts
  refine ⟨hr.of_foldl_cover hname hparts, ?_⟩
  rw [Attribute.span, Attribute.span, hr.foldl_cover hname hparts, hmap]
  rfl

theorem Respects.span_codeBlock {b : CodeBlock}
    (h : ∀ leaf ∈ (Node.codeBlock b).leaves, P leaf.span) :
    (r.codeBlock b).span = r.span b.span := by
  rw [Node.leaves_codeBlock] at h
  rcases b with ⟨start, _ | code, _ | stop⟩
  · rfl
  · exact (hr.span_cover (h (.token start) (by simp)) (h (.token stop) (by simp))).symm
  · exact (hr.span_cover (h (.token start) (by simp)) (h (.code code) (by simp))).symm
  · have hstart : P start.span := h (.token start) (by simp)
    have hcode : P code.span := h (.code code) (by simp)
    have hstop : P stop.span := h (.token stop) (by simp)
    have hspans : ∀ s ∈ [code.span, stop.span], P s := by simp [hcode, hstop]
    exact (hr.foldl_cover hstart hspans).symm

theorem Respects.span_directive {d : Directive}
    (h : ∀ leaf ∈ (Node.directive d).leaves, P leaf.span) :
    (r.directive d).span = r.span d.span := by
  rw [Node.leaves_directive] at h
  have hstart : P d.start.span := h (.token d.start) (by simp)
  have hname : P d.name.span := h (.capture d.name) (by simp)
  have hattrs : ∀ a ∈ d.attributes, P a.span ∧ (r.attr a).span = r.span a.span := by
    intro a ha
    apply hr.span_attr
    intro leaf hleaf
    exact h leaf (List.mem_append_left _ (List.mem_append_right _
      (List.mem_flatMap.mpr ⟨a, ha, hleaf⟩)))
  have hparts : ∀ s ∈ (d.attributes.getLast?.map (·.span)).toList ++
      (d.stop.map (·.span)).toList, P s := by
    simp only [List.mem_append, Option.mem_toList, Option.map_eq_some_iff]
    rintro s (⟨a, ha, rfl⟩ | ⟨m, hm, rfl⟩)
    · exact (hattrs a (List.mem_of_getLast? ha)).1
    · exact h (.token m) (by simp [hm])
  have hlast : ((r.directive d).attributes.getLast?.map (·.span)).toList =
      ((d.attributes.getLast?.map (·.span)).toList).map r.span := by
    rw [directive, List.getLast?_map]
    cases ha : d.attributes.getLast? with
    | none => rfl
    | some a => exact congrArg ([·]) (hattrs a (List.mem_of_getLast? ha)).2
  have hmap : ((r.directive d).stop.map (·.span)).toList =
      (d.stop.map (·.span)).toList.map r.span := by
    rcases d with ⟨_, _, _, _ | _⟩ <;> rfl
  rw [Directive.span, Directive.span, hr.foldl_cover (hr.cover hstart hname) hparts, hlast, hmap,
    List.map_append, hr.span_cover hstart hname]
  rfl

/-- The span of a node moves along with its leaves. -/
theorem Respects.span_node {n : Node} (hn : ∀ t, n ≠ .template t)
    (h : ∀ leaf ∈ n.leaves, P leaf.span) : (r.node n).span = r.span n.span := by
  cases n with
  | template t => exact absurd rfl (hn t)
  | codeBlock b => exact hr.span_codeBlock h
  | directive d => exact hr.span_directive h
  | attr a => exact (hr.span_attr h).2
  | capture | code | token => rfl

end NodeSpans

end Relocation

namespace ParsedTemplate

/-- The tree and the faults of tokens that are moved. -/
theorem ofStream_relocate {r : Relocation} {P : Span → Prop} (hr : r.Respects P)
    {next next' : Token} (hnext : r.Sends next next') {tokens : List Token}
    (h : ∀ t ∈ tokens, P t.span) :
    (ofStream ⟨tokens.map r.token, next'⟩).template.blocks =
        (ofStream ⟨tokens, next⟩).template.blocks.map r.block ∧
      (ofStream ⟨tokens.map r.token, next'⟩).faults =
        (ofStream ⟨tokens, next⟩).faults.map r.fault := by
  have hsends : r.recasting.Sends next next' := hnext
  rw [← r.block_recasting]
  apply ofStream_recast hsends
  intro stray hmem
  exact hr.strayFault fun t ht => h t (hmem t ht)

end ParsedTemplate

end TextTemplate
