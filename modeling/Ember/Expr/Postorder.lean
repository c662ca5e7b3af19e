import Ember.Expr

/-!
# Expressions as lists of nodes

The postorder of an expression lists the nodes of its operands before each operator. `assemble`
goes back with a stack: a literal is put on it, and an operator takes its operands off it, the
right one first. `Expr.preorder` lists each operator before its operands.
-/

namespace Ember

/-- A node of an expression without its operands. -/
inductive Node where
  | literal (value : Number) (position : Position)
  | unary (op : PrefixOp) (position : Position)
  | binary (op : InfixOp) (position : Position)
deriving DecidableEq

namespace Expr

/-- The nodes, each operator before its operands. -/
def preorder : Expr → List Node
  | literal n p => [.literal n p]
  | unary op e p => .unary op p :: e.preorder
  | binary op l r p => .binary op p :: (l.preorder ++ r.preorder)

/-- The nodes, each operator after its operands. -/
def postorder : Expr → List Node
  | literal n p => [.literal n p]
  | unary op e p => e.postorder ++ [.unary op p]
  | binary op l r p => l.postorder ++ r.postorder ++ [.binary op p]

end Expr

namespace Node

/-- The stack of expressions after one more node; `none` if an operand is missing. -/
def push? : Node → List Expr → Option (List Expr)
  | literal n p, stack => some (.literal n p :: stack)
  | unary op p, e :: stack => some (.unary op e p :: stack)
  | binary op p, r :: l :: stack => some (.binary op l r p :: stack)
  | _, _ => none

/-- The stack of expressions after a list of nodes. -/
def pushAll? (nodes : List Node) (stack : List Expr) : Option (List Expr) :=
  nodes.foldlM (fun s n => n.push? s) stack

/-- The expression on top of the stack after a list of nodes, none if the list is empty. -/
def assemble? (nodes : List Node) : Option Ast := (pushAll? nodes []).map fun s => ⟨s.head?⟩

end Node

end Ember
