import TextTemplate.Tree.Node

/-!
# The leaves of a tree

The nodes below a node are listed with an explicit stack. That list is the preorder: the node itself
and then, for each of its parts in turn, the nodes at and below it (`descendants_eq`). The leaves of
a node are the tokens among them (`Node.leaves`), in the order of the text. For each kind of node
they are those of its parts one after the other.

`Token.node` is the leaf that stands for a token. It keeps the kind and the place, and of a name or
a value the text too.
-/
namespace TextTemplate

namespace Node

theorem unstack_append (as bs : List Node) : unstack (as ++ bs) = unstack as ++ unstack bs := by
  fun_induction unstack as with
  | case1 => rfl
  | case2 node stack ih =>
    rw [List.cons_append, unstack, ← List.append_assoc, ih, List.cons_append]

theorem unstack_eq_flatMap (nodes : List Node) : unstack nodes = nodes.flatMap descendants := by
  induction nodes with
  | nil => simp [unstack]
  | cons node nodes ih =>
    rw [← List.singleton_append, unstack_append, ih]
    rfl

/-- The nodes at and below a node in preorder. -/
theorem descendants_eq (node : Node) :
    node.descendants = node :: node.children.flatMap descendants := by
  rw [descendants, unstack, List.append_nil, unstack_eq_flatMap]

/-- What holds of a node and is handed down to children holds of all nodes below it. -/
theorem forall_descendants {P : Node → Prop} (hdown : ∀ n, P n → ∀ child ∈ n.children, P child)
    {node : Node} (hnode : P node) : ∀ n ∈ node.descendants, P n := by
  -- children are lower than their parents
  induction hh : node.height using Nat.strongRecOn generalizing node with
  | ind height ih =>
    intro n hn
    rw [descendants_eq] at hn
    rcases List.mem_cons.mp hn with rfl | hn
    · exact hnode
    · obtain ⟨child, hchild, hn⟩ := List.mem_flatMap.mp hn
      have hlt := hh ▸ height_lt_of_mem_children hchild
      exact ih child.height hlt (hdown node hnode child hchild) rfl n hn

/-- No node below another one is a template. -/
theorem not_template_of_mem_descendants {block : Block} {n : Node}
    (h : n ∈ block.node.descendants) (t : Template) : n ≠ template t := by
  have hblock : block.node.height ≤ 2 := by
    cases block <;> simp [Block.node, height]
  have hn : n.height ≤ 2 := by
    refine forall_descendants (P := fun m => m.height ≤ 2) ?_ hblock n h
    intro m hm child hchild
    have := height_lt_of_mem_children hchild
    omega
  rintro rfl
  simp [height] at hn

/-- The tokens at and below a node, in the order of the text. -/
def leaves (node : Node) : List Node :=
  node.descendants.filter (·.isTerminal)

theorem leaves_eq (node : Node) :
    node.leaves = (if node.isTerminal then [node] else []) ++ node.children.flatMap leaves := by
  rw [leaves, descendants_eq, List.filter_cons, List.filter_flatMap]
  by_cases h : node.isTerminal
  · rw [if_pos h, if_pos h]
    rfl
  · rw [if_neg h, if_neg h]
    rfl

/-- The leaves of a node below another one are leaves of that one. -/
theorem mem_leaves_of_mem_descendants {node n leaf : Node} (h : n ∈ node.descendants)
    (hleaf : leaf ∈ n.leaves) : leaf ∈ node.leaves := by
  refine forall_descendants (P := fun m => ∀ leaf ∈ m.leaves, leaf ∈ node.leaves) ?_
    (fun leaf h => h) n h leaf hleaf
  intro m hm child hchild leaf hleaf
  apply hm
  rw [leaves_eq]
  exact List.mem_append_right _ (List.mem_flatMap.mpr ⟨child, hchild, hleaf⟩)

theorem leaves_of_isTerminal {node : Node} (h : node.isTerminal) : node.leaves = [node] := by
  have hchildren : node.children = [] := by
    cases node <;> first | rfl | contradiction
  rw [leaves_eq, if_pos h, hchildren]
  rfl

/-- Where all parts of a node are tokens, they are its leaves. -/
theorem leaves_eq_children {node : Node} (hn : node.isTerminal = false)
    (h : ∀ child ∈ node.children, child.isTerminal) : node.leaves = node.children := by
  have hflat : ∀ nodes : List Node, (∀ child ∈ nodes, child.isTerminal) →
      nodes.flatMap leaves = nodes := by
    intro nodes hnodes
    induction nodes with
    | nil => rfl
    | cons node nodes ih =>
      rw [List.flatMap_cons, leaves_of_isTerminal (hnodes node List.mem_cons_self),
        ih fun child hc => hnodes child (List.mem_cons_of_mem _ hc)]
      rfl
  rw [leaves_eq, hn, hflat _ h]
  rfl

@[simp]
theorem leaves_token (m : Mark) : (token m).leaves = [token m] :=
  leaves_of_isTerminal rfl

@[simp]
theorem leaves_capture (t : Token) : (capture t).leaves = [capture t] :=
  leaves_of_isTerminal rfl

theorem leaves_attr (a : Attribute) :
    (attr a).leaves =
      [capture a.name] ++ (a.equals.map token).toList ++ (a.openQuote.map token).toList ++
        (a.value.map capture).toList ++ (a.closeQuote.map token).toList := by
  apply leaves_eq_children rfl
  intro child h
  simp only [children, List.mem_append, List.mem_singleton, Option.mem_toList,
    Option.map_eq_some_iff] at h
  rcases h with (((rfl | ⟨_, -, rfl⟩) | ⟨_, -, rfl⟩) | ⟨_, -, rfl⟩) | ⟨_, -, rfl⟩ <;> rfl

theorem leaves_codeBlock (b : CodeBlock) :
    (codeBlock b).leaves =
      [token b.start] ++ (b.code.map code).toList ++ (b.stop.map token).toList := by
  apply leaves_eq_children rfl
  intro child h
  simp only [children, List.mem_append, List.mem_singleton, Option.mem_toList,
    Option.map_eq_some_iff] at h
  rcases h with (rfl | ⟨_, -, rfl⟩) | ⟨_, -, rfl⟩ <;> rfl

theorem leaves_directive (d : Directive) :
    (directive d).leaves =
      [token d.start, capture d.name] ++ d.attributes.flatMap (fun a => (attr a).leaves) ++
        (d.stop.map token).toList := by
  have hstop : (d.stop.map token).toList.flatMap leaves = (d.stop.map token).toList := by
    cases d.stop <;> simp
  rw [leaves_eq, children, List.flatMap_append, List.flatMap_append, List.flatMap_map, hstop]
  simp [isTerminal]

theorem leaves_template (t : Template) :
    (template t).leaves = t.blocks.flatMap fun block => block.node.leaves := by
  rw [leaves_eq, children, List.flatMap_map]
  rfl

end Node

/-- The leaf of a tree that stands for a token. -/
def Token.node (t : Token) : Node :=
  if t.kind.isCapture then .capture t
  else if t.kind = .code then .code t.toMark
  else .token t.toMark

namespace Token

theorem node_of_isCapture {t : Token} (h : t.kind.isCapture) : t.node = .capture t :=
  if_pos h

theorem node_of_code {t : Token} (h : t.kind = .code) : t.node = .code t.toMark := by
  rw [node, h]
  rfl

/-- Delimiters and signs, and the end of the file, are leaves without a text. -/
theorem node_eq_token {t : Token} (h : t.kind.isCapture = false) (hc : t.kind ≠ .code) :
    t.node = .token t.toMark := by
  rw [node, h, if_neg hc]
  rfl

theorem node_of_blockEnd {t : Token} (h : t.kind = .blockEnd) : t.node = .token t.toMark :=
  node_eq_token (by rw [h]; rfl) (by rw [h]; decide)

theorem node_of_isBlockStart {t : Token} (h : t.kind.isBlockStart) : t.node = .token t.toMark := by
  apply node_eq_token
  · cases hk : t.kind <;> simp_all [TokenKind.isBlockStart, TokenKind.isCapture]
  · intro hk
    rw [hk] at h
    contradiction

theorem span_node (t : Token) : t.node.span = t.span := by
  unfold node
  split
  · rfl
  · split <;> rfl

end Token

end TextTemplate
