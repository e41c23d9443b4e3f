/-
Module: SymbolicCalculus.Expr.Inspect
Layer: Expressions
Purpose: The bracketed form of expressions, which shows the structure of the tree rather than its
  notation: every node in brackets after its name, and identifiers in quotes.
Trusted boundary: none
Main exports: Expr.inspect
-/
import SymbolicCalculus.Expr.Basic
import SymbolicCalculus.Text.Quoted

namespace SymbolicCalculus.Expr

/-- The bracketed form of an expression. -/
def inspect : Expr → String
  | .literal value => value.toInt.repr
  | .identifier name => Text.quote name
  | .binary op left right => "(" ++ op.label ++ " " ++ left.inspect ++ " " ++ right.inspect ++ ")"
  | .call f argument => "(" ++ f.label ++ " " ++ argument.inspect ++ ")"

end SymbolicCalculus.Expr
