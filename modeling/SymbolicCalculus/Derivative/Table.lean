/-
Module: SymbolicCalculus.Derivative.Table
Layer: Differentiation
Purpose: The derivatives of the elementary functions, each taken at an argument. The derivative of
  the argument itself is no part of an entry; the chain rule multiplies by it.
Trusted boundary: none
Main exports: ElementaryFunction.derivativeAt
-/
import SymbolicCalculus.Expr.Basic

namespace SymbolicCalculus

namespace Expr

/-- The square of an expression. -/
def square (e : Expr) : Expr := .power e (.literal 2)

/-- The root of one less a square, which the two arcs of sine and cosine share. -/
def sqrtOneMinusSquare (e : Expr) : Expr :=
  .call .sqrt (.difference (.literal 1) e.square)

end Expr

/-- The derivative of a function, at the argument `g`. -/
def ElementaryFunction.derivativeAt (f : ElementaryFunction) (g : Expr) : Expr :=
  match f with
  | .sin => .call .cos g
  | .cos => .product (.literal (-1)) (.call .sin g)
  | .tan => .quotient (.literal 1) (Expr.call .cos g).square
  | .cot => .quotient (.literal (-1)) (Expr.call .sin g).square
  | .arcsin => .quotient (.literal 1) g.sqrtOneMinusSquare
  | .arccos => .quotient (.literal (-1)) g.sqrtOneMinusSquare
  | .arctan => .quotient (.literal 1) (.sum (.literal 1) g.square)
  | .arccot => .quotient (.literal (-1)) (.sum (.literal 1) g.square)
  | .ln => .quotient (.literal 1) g
  | .sqrt => .quotient (.literal 1) (.product (.literal 2) (.call .sqrt g))

end SymbolicCalculus
