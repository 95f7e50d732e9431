import TextTemplate.Text.Bytes
import TextTemplate.Tree.Basic

/-!
# Nodes

A uniform view of everything in a tree. `Node.children` gives the parts of a node in the order of
the text, `Node.descendants` a node and everything below it, parents before children.
-/
namespace TextTemplate

/-- What a node is. -/
inductive NodeKind where
  | template
  | codeBlock
  | directive (kind : DirectiveKind)
  | attr
  /-- A token, which has no parts. -/
  | leaf (kind : TokenKind)
deriving DecidableEq, Repr

namespace NodeKind

/-- The node is a directive. -/
def isDirective : NodeKind → Bool
  | directive _ => true
  | _ => false

/-- The node opens a block. -/
def isBlockStart : NodeKind → Bool
  | leaf kind => kind.isBlockStart
  | _ => false

/-- The node is a name or a value. -/
def isCapture : NodeKind → Bool
  | leaf kind => kind.isCapture
  | _ => false

/-- The node has no parts. -/
def isTerminal : NodeKind → Bool
  | leaf _ => true
  | _ => false

end NodeKind

/-- Any part of a tree, and the tree itself. -/
inductive Node where
  | template (t : Template)
  | codeBlock (b : CodeBlock)
  | directive (d : Directive)
  | attr (a : Attribute)
  /-- A name or a value. -/
  | capture (t : Token)
  /-- The code of a block. -/
  | code (m : Mark)
  /-- A delimiter or another sign, or the end of the file. -/
  | token (m : Mark)
deriving DecidableEq

namespace Block

/-- The block as a node. -/
def node : Block → Node
  | directive d => .directive d
  | code b => .codeBlock b

end Block

namespace Node

def kind : Node → NodeKind
  | template _ => .template
  | codeBlock _ => .codeBlock
  | directive d => .directive d.kind
  | attr _ => .attr
  | capture t => .leaf t.kind
  | code _ => .leaf .code
  | token m => .leaf m.kind

def span : Node → Span
  | template t => t.span
  | codeBlock b => b.span
  | directive d => d.span
  | attr a => a.span
  | capture t => t.span
  | code m => m.span
  | token m => m.span

/-- The place of the node's first token. -/
def position : Node → Position
  | template t => t.position
  | codeBlock b => b.position
  | directive d => d.position
  | attr a => a.position
  | capture t => t.position
  | code m => m.position
  | token m => m.position

/-- The node is a token. -/
def isTerminal : Node → Bool
  | capture _ | code _ | token _ => true
  | _ => false

/-- The parts of the node in the order of the text. The end of the file is not a part of a template.
-/
def children : Node → List Node
  | template t => t.blocks.map Block.node
  | codeBlock b => [token b.start] ++ (b.code.map code).toList ++ (b.stop.map token).toList
  | directive d =>
    [token d.start, capture d.name] ++ d.attributes.map attr ++ (d.stop.map token).toList
  | attr a =>
    [capture a.name] ++ (a.equals.map token).toList ++ (a.openQuote.map token).toList ++
      (a.value.map capture).toList ++ (a.closeQuote.map token).toList
  | capture _ | code _ | token _ => []

/-- How many levels of parts a node can have at most. -/
def height : Node → Nat
  | template _ => 3
  | codeBlock _ => 1
  | directive _ => 2
  | attr _ => 1
  | capture _ | code _ | token _ => 0

theorem height_lt_of_mem_children {node child : Node} (h : child ∈ node.children) :
    child.height < node.height := by
  cases node with
  | template t =>
    obtain ⟨block, -, rfl⟩ := List.mem_map.mp h
    cases block <;> simp [Block.node, height]
  | codeBlock b =>
    simp only [children, List.mem_append, List.mem_singleton, Option.mem_toList,
      Option.map_eq_some_iff] at h
    rcases h with (rfl | ⟨_, -, rfl⟩) | ⟨_, -, rfl⟩ <;> simp [height]
  | directive d =>
    simp only [children, List.mem_append, List.mem_cons, List.not_mem_nil, or_false, List.mem_map,
      Option.mem_toList, Option.map_eq_some_iff] at h
    rcases h with ((rfl | rfl) | ⟨_, -, rfl⟩) | ⟨_, -, rfl⟩ <;> simp [height]
  | attr a =>
    simp only [children, List.mem_append, List.mem_singleton, Option.mem_toList,
      Option.map_eq_some_iff] at h
    rcases h with (((rfl | ⟨_, -, rfl⟩) | ⟨_, -, rfl⟩) | ⟨_, -, rfl⟩) | ⟨_, -, rfl⟩ <;>
      simp [height]
  | capture _ | code _ | token _ => simp [children] at h

/-- The number of nodes at and below a node. -/
def size (node : Node) : Nat :=
  node.children.attach.foldr (fun child n => child.val.size + n) 1
termination_by node.height
decreasing_by exact height_lt_of_mem_children child.property

/-- The number of nodes at and below the nodes of a list. -/
def sizes : List Node → Nat
  | [] => 0
  | node :: nodes => node.size + sizes nodes

theorem sizes_append (as bs : List Node) : sizes (as ++ bs) = sizes as + sizes bs := by
  induction as with
  | nil => simp [sizes]
  | cons node nodes ih => simp [sizes, ih, Nat.add_assoc]

theorem foldr_size (nodes : List Node) :
    nodes.foldr (fun child n => child.size + n) 1 = sizes nodes + 1 := by
  induction nodes with
  | nil => rfl
  | cons child rest ih => simp [sizes, ih, Nat.add_assoc]

theorem size_eq (node : Node) : node.size = sizes node.children + 1 := by
  rw [size, ← foldr_size]
  exact @List.foldr_attach _ _ node.children (fun child n => child.size + n) 1

/-- The nodes on a stack and everything below them, each before its children. -/
def unstack : List Node → List Node
  | [] => []
  | node :: stack => node :: unstack (node.children ++ stack)
termination_by stack => sizes stack
decreasing_by
  rw [sizes_append, sizes, size_eq node]
  omega

/-- The node and everything below it, parents before children and in the order of the text. -/
def descendants (node : Node) : List Node :=
  unstack [node]

end Node

/-- The text of a span, empty if the span does not fit the text. -/
def Span.textOf (span : Span) (source : String) : String :=
  ((slice? source.toList span.start span.stop).map String.ofList).getD ""

end TextTemplate
