/-
Module: SymbolicCalculus.Expr.Infix
Layer: Expressions
Purpose: Expressions in infix order, with only the parentheses that reading them back needs. An
  operand is put in parentheses when it binds looser than its operator; a right operand also when it
  binds equally and its operator does not regroup, so that `a - (b - c)` keeps its parentheses while
  `a + (b - c)` loses them.
Trusted boundary: none
Main exports: Expr.toInfix, Expr.render, Expr.isLooserThan, Expr.bindsLike
-/
import SymbolicCalculus.Expr.Basic
import SymbolicCalculus.Token.Printing

namespace SymbolicCalculus.Expr

/-- Whether an operand binds looser than the operator above it. Leaves and calls bind tightest. -/
def isLooserThan (op : BinaryOp) : Expr → Bool
  | .binary inner _ _ => inner.precedence < op.precedence
  | .literal _ | .identifier _ | .call .. => false

/-- Whether an operand is an operation that binds exactly as tightly as the operator above it. -/
def bindsLike (op : BinaryOp) : Expr → Bool
  | .binary inner _ _ => inner.precedence == op.precedence
  | .literal _ | .identifier _ | .call .. => false

/-- Whether a left operand needs parentheses. -/
def leftNeedsParens (op : BinaryOp) (left : Expr) : Bool :=
  left.isLooserThan op

/-- Whether a right operand needs parentheses. -/
def rightNeedsParens (op : BinaryOp) (right : Expr) : Bool :=
  right.isLooserThan op || (!op.isAssociative && right.bindsLike op)

/-- Puts tokens in parentheses where they are needed. -/
def parenthesizeIf (needed : Bool) (tokens : List Token) : List Token :=
  if needed then .openParen :: tokens ++ [.closeParen] else tokens

/-- The infix tokens of an expression. -/
def toInfix : Expr → List Token
  | .literal value => [.literal value]
  | .identifier name => [.identifier name]
  | .binary op left right =>
      parenthesizeIf (leftNeedsParens op left) left.toInfix ++
        .operator op :: parenthesizeIf (rightNeedsParens op right) right.toInfix
  | .call f argument => .function f :: .openParen :: argument.toInfix ++ [.closeParen]

/-- An expression written on one line. -/
def render (e : Expr) : String :=
  Token.infixLine e.toInfix

end SymbolicCalculus.Expr
