/-
Module: SymbolicCalculus.Token.Basic
Layer: Tokens
Purpose: The discrete parts of a written expression. The same tokens serve both orders: infix, where
  parentheses group, and postfix, where operators follow their operands and no parenthesis is left.
Trusted boundary: none
Main exports: Token, Token.text, Token.isValue, Token.isParenthesis
-/
import SymbolicCalculus.Operator
import SymbolicCalculus.ElementaryFunction

namespace SymbolicCalculus

/-- A discrete part of a written expression. -/
inductive Token where
  | literal (value : Int64)
  | identifier (name : String)
  | function (f : ElementaryFunction)
  | operator (op : BinaryOp)
  | openParen
  | closeParen
deriving DecidableEq, Repr

namespace Token

/-- What a token looks like in an expression. A negative integer carries its sign. -/
def text : Token → String
  | .literal value => value.toInt.repr
  | .identifier name => name
  | .function f => f.name
  | .operator op => op.symbol.toString
  | .openParen => "("
  | .closeParen => ")"

/-- A value is a token that is an operand on its own. -/
def isValue : Token → Bool
  | .literal _ | .identifier _ => true
  | .function _ | .operator _ | .openParen | .closeParen => false

/-- Parentheses group in infix order and have no place in postfix order. -/
def isParenthesis : Token → Bool
  | .openParen | .closeParen => true
  | .literal _ | .identifier _ | .function _ | .operator _ => false

/-- The operator that a token is, if it is one. -/
def operator? : Token → Option BinaryOp
  | .operator op => some op
  | _ => none

end Token

end SymbolicCalculus
