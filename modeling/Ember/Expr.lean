import Ember.Operator
import Ember.Position

/-!
# Expressions

Trees of number literals and operators. Each node has the position of its literal or operator;
parentheses leave no node behind. `Expr.text` writes a tree with every operator in front of its
operands.
-/

namespace Ember

/-- An expression. -/
inductive Expr where
  | literal (value : Number) (position : Position)
  | unary (op : PrefixOp) (operand : Expr) (position : Position)
  | binary (op : InfixOp) (left right : Expr) (position : Position)
deriving DecidableEq

namespace Expr

/-- The place of the literal or operator at the root. -/
def position : Expr → Position
  | literal _ p => p
  | unary _ _ p => p
  | binary _ _ _ p => p

/-- The expression in parentheses, each operator before its operands. -/
def text : Expr → String
  | literal n _ => n.text
  | unary op e _ => "(" ++ op.symbol ++ " " ++ e.text ++ ")"
  | binary op l r _ => "(" ++ op.symbol ++ " " ++ l.text ++ " " ++ r.text ++ ")"

/-- Whether two trees have the same shape, operators and positions and equal numbers at the
leaves. A tree with `nan` in it is not even equal to itself. -/
def eq : Expr → Expr → Bool
  | literal m p, literal n q => m.eq n && p = q
  | unary op e p, unary op' e' q => op = op' && e.eq e' && p = q
  | binary op l r p, binary op' l' r' q => op = op' && l.eq l' && r.eq r' && p = q
  | _, _ => false

end Expr

/-- What a text that holds at most one expression stands for. -/
structure Ast where
  root : Option Expr
deriving DecidableEq

namespace Ast

/-- No expression. -/
def empty : Ast := ⟨none⟩

instance : Inhabited Ast := ⟨empty⟩

/-- Whether there is no expression. -/
def isEmpty (a : Ast) : Bool := a.root.isNone

/-- The text of the expression, or a pair of parentheses. -/
def text (a : Ast) : String :=
  match a.root with
  | some e => e.text
  | none => "()"

/-- Whether both are empty or have equal expressions. -/
def eq (a b : Ast) : Bool :=
  match a.root, b.root with
  | some d, some e => d.eq e
  | none, none => true
  | _, _ => false

end Ast

end Ember
