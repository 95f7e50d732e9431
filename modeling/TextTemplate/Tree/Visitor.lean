import TextTemplate.Tree.Node

/-!
# Visitors

A visitor walks a tree and may treat some nodes in a way of its own. Every node belongs to a chain
of categories, from its own kind up to "any node"; a visitor names handlers for some categories, and
the handler for the closest category of a node takes the node. Nodes that no handler takes are
walked through.

A handler says what to do with the node and whether to walk on below it.
-/
namespace TextTemplate

/-- The categories of nodes that a visitor can ask for. -/
inductive Category where
  | template
  | codeBlock
  | attr
  | directiveOf (kind : DirectiveKind)
  | directive
  | directiveName
  | attributeName
  | attributeValue
  | capture
  | code
  | statementStart
  | expressionStart
  | classStart
  | directiveStart
  | blockStart
  | blockEnd
  | equals
  | quote
  | endOfFile
  | sign
  | terminal
  | nonterminal
  | node
deriving DecidableEq, Repr

namespace Category

/-- The next wider category. -/
def wider? : Category → Option Category
  | template | codeBlock | attr | directive => some nonterminal
  | directiveOf _ => some directive
  | directiveName | attributeName | attributeValue => some capture
  | capture | code | sign => some terminal
  | statementStart | expressionStart | classStart | directiveStart => some blockStart
  | blockStart | blockEnd | equals | quote | endOfFile => some sign
  | terminal | nonterminal => some node
  | node => none

/-- How many wider categories there are. -/
def depth : Category → Nat
  | node => 0
  | terminal | nonterminal => 1
  | template | codeBlock | attr | directive | capture | code | sign => 2
  | directiveOf _ | directiveName | attributeName | attributeValue => 3
  | blockStart | blockEnd | equals | quote | endOfFile => 3
  | statementStart | expressionStart | classStart | directiveStart => 4

theorem depth_of_wider? {c w : Category} (h : c.wider? = some w) : w.depth < c.depth := by
  cases c <;> simp only [wider?, Option.some.injEq, reduceCtorEq] at h <;> subst h <;>
    simp [depth]

/-- The category and all wider ones, from the closest to "any node". -/
def chain (c : Category) : List Category :=
  match _h : c.wider? with
  | some w => c :: w.chain
  | none => [c]
termination_by c.depth
decreasing_by exact depth_of_wider? ‹_›

end Category

/-- The closest category of a name or a value. -/
def TokenKind.captureCategory : TokenKind → Category
  | .directiveName => .directiveName
  | .attributeName => .attributeName
  | _ => .attributeValue

/-- The closest category of a delimiter or another sign. -/
def TokenKind.signCategory : TokenKind → Category
  | .statementStart => .statementStart
  | .expressionStart => .expressionStart
  | .classStart => .classStart
  | .directiveStart => .directiveStart
  | .blockEnd => .blockEnd
  | .equals => .equals
  | .quote => .quote
  | _ => .endOfFile

/-- The closest category of a node. -/
def Node.category : Node → Category
  | template _ => .template
  | codeBlock _ => .codeBlock
  | directive d => .directiveOf d.kind
  | attr _ => .attr
  | capture t => t.kind.captureCategory
  | code _ => .code
  | token m => m.kind.signCategory

/-- What a visitor does with the nodes of each category that it handles: a new state, and whether to
walk on below the node. -/
structure Visitor (σ : Type) where
  handler? : Category → Option (Node → σ → σ × Bool)

namespace Visitor

variable {σ : Type}

/-- The handler that takes the nodes of the category. -/
def closest? (v : Visitor σ) (c : Category) : Option (Node → σ → σ × Bool) :=
  c.chain.findSome? v.handler?

/-- The state after the visitor has been at the node and below it. -/
def visit (v : Visitor σ) (node : Node) (state : σ) : σ :=
  let (state, descend) :=
    match v.closest? node.category with
    | some handler => handler node state
    | none => (state, true)
  if descend then
    node.children.attach.foldl (fun state ⟨child, _⟩ => v.visit child state) state
  else state
termination_by node.height
decreasing_by exact Node.height_lt_of_mem_children ‹_›

theorem visit_eq (v : Visitor σ) (node : Node) (state : σ) :
    v.visit node state =
      let (state, descend) :=
        match v.closest? node.category with
        | some handler => handler node state
        | none => (state, true)
      if descend then node.children.foldl (fun state child => v.visit child state) state
      else state := by
  rw [visit]
  simp only [List.foldl_subtype, List.unattach_attach]

/-- The visitor that records the nodes of one category, in order, and walks on below them if told
to. -/
def recorder (c : Category) (descend : Bool) : Visitor (List Node) where
  handler? c' := if c' = c then some fun node seen => (seen ++ [node], descend) else none

end Visitor

end TextTemplate
