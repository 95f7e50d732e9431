import TextTemplate.Proofs.NodeBytes
import TextTemplate.Tree.Visitor

/-!
# The nodes that a visitor comes to

A visitor that records one category of nodes comes to exactly the nodes of that category, in
preorder; if it does not walk on below the nodes that it records, then to those of them that have no
node of the category above them (`visited_nodes`).

Two things are compared here with what they should be. The categories of a node are looked up step
by step, and what is wider than what is the business of `Category.wider?`; `NodeKind.categories`
lists them for each kind of node. The nodes of a tree are taken off a stack; `Node.preorder` goes
through the parts of a node in turn, and `Node.lineage` does so with the nodes above each node.
-/
namespace TextTemplate

/-! ## Categories by kind -/

/-- The categories of a token of the kind, from its own to the widest. -/
def TokenKind.categories : TokenKind → List Category
  | .directiveName => [.directiveName, .capture, .terminal, .node]
  | .attributeName => [.attributeName, .capture, .terminal, .node]
  | .attributeValue => [.attributeValue, .capture, .terminal, .node]
  | .code => [.code, .terminal, .node]
  | .statementStart => [.statementStart, .blockStart, .sign, .terminal, .node]
  | .expressionStart => [.expressionStart, .blockStart, .sign, .terminal, .node]
  | .classStart => [.classStart, .blockStart, .sign, .terminal, .node]
  | .directiveStart => [.directiveStart, .blockStart, .sign, .terminal, .node]
  | .blockEnd => [.blockEnd, .sign, .terminal, .node]
  | .equals => [.equals, .sign, .terminal, .node]
  | .quote => [.quote, .sign, .terminal, .node]
  | .endOfFile => [.endOfFile, .sign, .terminal, .node]

/-- The categories of a node of the kind, from its own to the widest. -/
def NodeKind.categories : NodeKind → List Category
  | .template => [.template, .nonterminal, .node]
  | .codeBlock => [.codeBlock, .nonterminal, .node]
  | .directive kind => [.directiveOf kind, .directive, .nonterminal, .node]
  | .attr => [.attr, .nonterminal, .node]
  | .leaf kind => kind.categories

theorem Token.chain_category_node (t : Token) :
    t.node.category.chain = t.kind.categories := by
  cases hk : t.kind <;>
    simp [node, hk, TokenKind.isCapture, Node.category, TokenKind.captureCategory,
      TokenKind.signCategory, Category.chain, Category.wider?, TokenKind.categories]

namespace Node

/-- The leaves at and below the node stand for tokens. -/
def OfTokens (n : Node) : Prop :=
  ∀ leaf ∈ n.leaves, ∃ t : Token, leaf = t.node

theorem OfTokens.child {n child : Node} (h : n.OfTokens) (hchild : child ∈ n.children) :
    child.OfTokens := by
  intro leaf hleaf
  apply h
  rw [leaves_eq]
  exact List.mem_append_right _ (List.mem_flatMap.mpr ⟨child, hchild, hleaf⟩)

/-- Where leaves stand for tokens, every node belongs to the categories of its kind. -/
theorem OfTokens.chain_category {n : Node} (h : n.OfTokens) :
    n.category.chain = n.kind.categories := by
  cases hn : n.isTerminal with
  | true =>
    obtain ⟨t, rfl⟩ := h n (by simp [leaves_of_isTerminal hn])
    rw [Token.chain_category_node, Token.kind_node]
    rfl
  | false =>
    cases n <;>
      simp_all [isTerminal, category, kind, Category.chain, Category.wider?, NodeKind.categories]

/-! ## Preorder -/

/-- The node, and then the nodes at and below each of its parts in turn. -/
def preorder (node : Node) : List Node :=
  node :: node.children.attach.flatMap fun ⟨child, _⟩ => child.preorder
termination_by node.height
decreasing_by exact height_lt_of_mem_children ‹_›

/-- The nodes at and below the node in preorder, each with the nodes above it; those in `above` are
above all of them. -/
def lineage (above : List Node) (node : Node) : List (List Node × Node) :=
  (above, node) :: node.children.attach.flatMap fun ⟨child, _⟩ => child.lineage (node :: above)
termination_by node.height
decreasing_by exact height_lt_of_mem_children ‹_›

theorem preorder_eq (node : Node) : node.preorder = node :: node.children.flatMap preorder := by
  rw [preorder]
  simp only [List.flatMap_subtype, List.unattach_attach]

theorem lineage_eq (above : List Node) (node : Node) :
    node.lineage above =
      (above, node) :: node.children.flatMap (lineage (node :: above)) := by
  rw [lineage]
  simp only [List.flatMap_subtype, List.unattach_attach]

/-- Taking nodes off a stack, and putting their parts on it, is going through them in preorder. -/
theorem descendants_eq_preorder (node : Node) : node.descendants = node.preorder := by
  induction hh : node.height using Nat.strongRecOn generalizing node with
  | ind height ih =>
    rw [descendants_eq, preorder_eq, List.flatMap_congr]
    intro child hchild
    exact ih child.height (hh ▸ height_lt_of_mem_children hchild) child rfl

theorem map_snd_lineage (above : List Node) (node : Node) :
    (node.lineage above).map Prod.snd = node.preorder := by
  induction hh : node.height using Nat.strongRecOn generalizing node above with
  | ind height ih =>
    rw [lineage_eq, preorder_eq, List.map_cons, List.map_flatMap, List.flatMap_congr]
    intro child hchild
    exact ih child.height (hh ▸ height_lt_of_mem_children hchild) (node :: above) child rfl

/-- What is above a node is above all nodes below it. -/
theorem mem_above_of_mem_lineage {above : List Node} {node : Node} {p : List Node × Node}
    (hp : p ∈ node.lineage above) : ∀ a ∈ above, a ∈ p.1 := by
  induction hh : node.height using Nat.strongRecOn generalizing node above with
  | ind height ih =>
    intro a ha
    rw [lineage_eq] at hp
    rcases List.mem_cons.mp hp with rfl | hp
    · exact ha
    · obtain ⟨child, hchild, hp⟩ := List.mem_flatMap.mp hp
      have hlt := hh ▸ height_lt_of_mem_children hchild
      exact ih child.height hlt hp rfl a (List.mem_cons_of_mem _ ha)

/-- What holds of a node and of those above it, and is handed down to children, holds of all nodes
below it and of those above them. -/
theorem forall_lineage {P : Node → Prop} (hdown : ∀ n, P n → ∀ child ∈ n.children, P child)
    {above : List Node} {node : Node} (habove : ∀ a ∈ above, P a) (hnode : P node) :
    ∀ p ∈ node.lineage above, (∀ a ∈ p.1, P a) ∧ P p.2 := by
  induction hh : node.height using Nat.strongRecOn generalizing node above with
  | ind height ih =>
    intro p hp
    rw [lineage_eq] at hp
    rcases List.mem_cons.mp hp with rfl | hp
    · exact ⟨habove, hnode⟩
    · obtain ⟨child, hchild, hp⟩ := List.mem_flatMap.mp hp
      have hlt := hh ▸ height_lt_of_mem_children hchild
      have habove' : ∀ a ∈ node :: above, P a := List.forall_mem_cons.mpr ⟨hnode, habove⟩
      exact ih child.height hlt habove' (hdown node hnode child hchild) rfl p hp

end Node

/-! ## Recorders -/

namespace Visitor

variable {c : Category} {descend : Bool}

theorem closest?_recorder (category : Category) :
    (recorder c descend).closest? category =
      if c ∈ category.chain then some fun node seen => (seen ++ [node], descend) else none := by
  rw [closest?]
  induction category.chain with
  | nil => rfl
  | cons category wider ih =>
    rw [List.findSome?_cons, ih]
    by_cases h : category = c
    · simp [recorder, h]
    · simp [recorder, h, Ne.symm h]

/-- The visitor does not come to nodes below those that it records, unless it walks on there. -/
def Passes (c : Category) (descend : Bool) (above : List Node) : Prop :=
  descend ∨ ∀ a ∈ above, c ∉ a.category.chain

instance (above : List Node) : Decidable (Passes c descend above) :=
  inferInstanceAs (Decidable (_ ∨ _))

/-- Of nodes with those above them, the ones of the category that the visitor comes to. -/
def recorded (c : Category) (descend : Bool) (nodes : List (List Node × Node)) : List Node :=
  (nodes.filter fun p => c ∈ p.2.category.chain ∧ Passes c descend p.1).map Prod.snd

theorem recorded_flatMap (nodes : List Node) (f : Node → List (List Node × Node)) :
    recorded c descend (nodes.flatMap f) = nodes.flatMap fun node => recorded c descend (f node) := by
  rw [recorded, List.filter_flatMap, List.map_flatMap]
  rfl

/-- Without walking on, nothing is recorded below a node that is. -/
theorem recorded_below_eq_nil {node : Node} (hnode : c ∈ node.category.chain)
    (above : List Node) :
    recorded c false (node.children.flatMap (Node.lineage (node :: above))) = [] := by
  rw [recorded, List.map_eq_nil_iff, List.filter_eq_nil_iff]
  intro p hp hrecorded
  obtain ⟨child, -, hp⟩ := List.mem_flatMap.mp hp
  have hpasses := (of_decide_eq_true hrecorded).2.resolve_left Bool.false_ne_true
  exact hpasses node (Node.mem_above_of_mem_lineage hp node List.mem_cons_self) hnode

/-- Below nodes that let it pass, the visitor records the nodes of its category that it comes to in
preorder. -/
theorem visit_recorder {above : List Node} (habove : Passes c descend above) (node : Node)
    (seen : List Node) :
    (recorder c descend).visit node seen = seen ++ recorded c descend (node.lineage above) := by
  induction hh : node.height using Nat.strongRecOn generalizing node above seen with
  | ind height ih =>
    have hchildren (hpasses : Passes c descend (node :: above)) (seen : List Node) :
        node.children.foldl (fun seen child => (recorder c descend).visit child seen) seen =
          seen ++ recorded c descend (node.children.flatMap (Node.lineage (node :: above))) := by
      rw [recorded_flatMap]
      refine (List.foldl_ext _ _ _ fun seen child hchild => ?_).trans
        (List.foldl_append_eq_append.trans (by rw [List.flatMap_def]))
      exact ih child.height (hh ▸ Node.height_lt_of_mem_children hchild) hpasses child seen rfl
    rw [visit_eq, closest?_recorder, Node.lineage_eq, recorded, List.filter_cons]
    by_cases hnode : c ∈ node.category.chain
    · rw [if_pos hnode, if_pos (by simp [hnode, habove]), List.map_cons, ← recorded]
      cases descend with
      | true => exact (hchildren (.inl rfl) _).trans (List.append_assoc ..)
      | false =>
        rw [recorded_below_eq_nil hnode]
        rfl
    · have hpasses : Passes c descend (node :: above) :=
        habove.imp_right fun h => List.forall_mem_cons.mpr ⟨hnode, h⟩
      rw [if_neg hnode, if_neg (by simp [hnode]), ← recorded]
      exact hchildren hpasses seen

end Visitor

/-- In the tree of a text, all nodes belong to the categories of their kinds, and so do the nodes
above them. -/
theorem Template.chain_category_of_mem_lineage {text : String} {p : List Node × Node}
    (hp : p ∈ (Node.template (parse text).template).lineage []) :
    (∀ a ∈ p.1, a.category.chain = a.kind.categories) ∧
      p.2.category.chain = p.2.kind.categories := by
  have hroot : (Node.template (parse text).template).OfTokens := by
    intro leaf hleaf
    obtain ⟨t, -, hleaf⟩ := (pairwise_leaves text).1 leaf hleaf
    exact ⟨t, hleaf⟩
  obtain ⟨habove, hnode⟩ := Node.forall_lineage (fun _ h _ hchild => h.child hchild)
    (List.forall_mem_nil _) hroot p hp
  exact ⟨fun a ha => (habove a ha).chain_category, hnode.chain_category⟩

/-- **Visitors.** A visitor that records the nodes of one category and walks on below them comes, in
preorder, to exactly the nodes whose kind is of that category. If it does not walk on below them, it
comes to exactly those that have no node of the category above them. The nodes at and below a node
are listed in preorder, and so they are with the nodes above each of them. -/
theorem visited_nodes (text : String) (c : Category) :
    let root := Node.template (parse text).template
    (Visitor.recorder c true).visit root [] =
        root.descendants.filter (fun n => c ∈ n.kind.categories) ∧
      (Visitor.recorder c false).visit root [] =
        ((root.lineage []).filter fun (above, n) =>
          c ∈ n.kind.categories ∧ ∀ a ∈ above, c ∉ a.kind.categories).map Prod.snd ∧
      ∀ n : Node, n.descendants = n.preorder ∧ (n.lineage []).map Prod.snd = n.preorder := by
  intro root
  have hpreorder (n : Node) : (n.lineage []).map Prod.snd = n.preorder := n.map_snd_lineage []
  refine ⟨?_, ?_, fun n => ⟨n.descendants_eq_preorder, hpreorder n⟩⟩
  · rw [Visitor.visit_recorder (.inl rfl), List.nil_append, root.descendants_eq_preorder,
      ← hpreorder, List.filter_map, Visitor.recorded]
    refine congrArg _ (List.filter_congr fun p hp => ?_)
    simp [Visitor.Passes, (Template.chain_category_of_mem_lineage hp).2]
  · rw [Visitor.visit_recorder (.inr (List.forall_mem_nil _)), List.nil_append, Visitor.recorded]
    refine congrArg _ (List.filter_congr fun p hp => ?_)
    obtain ⟨habove, hnode⟩ := Template.chain_category_of_mem_lineage hp
    have hpasses : Visitor.Passes c false p.1 ↔ ∀ a ∈ p.1, c ∉ a.kind.categories := by
      simp only [Visitor.Passes, Bool.false_eq_true, false_or]
      exact forall₂_congr fun a ha => by rw [habove a ha]
    rw [hnode, decide_eq_decide, hpasses]

end TextTemplate
