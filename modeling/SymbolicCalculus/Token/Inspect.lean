/-
Module: SymbolicCalculus.Token.Inspect
Layer: Tokens
Purpose: Tokens by the name of their kind, as records of the work list them.
Trusted boundary: none
Main exports: Token.inspect, Token.inspectList
-/
import SymbolicCalculus.Token.Basic
import SymbolicCalculus.Text.Quoted

namespace SymbolicCalculus.Token

/-- The name of an operator's token. It is named for the character, not for the operation. -/
def operatorLabel : BinaryOp → String
  | .add => "Plus"
  | .subtract => "Dash"
  | .multiply => "Asterisk"
  | .divide => "ForwardSlash"
  | .power => "Caret"

/-- A token by the name of its kind. -/
def inspect : Token → String
  | .literal value => "LiteralInteger(" ++ value.toInt.repr ++ ")"
  | .identifier name => "Identifier(" ++ Text.quote name ++ ")"
  | .function f => "Function(" ++ f.label ++ ")"
  | .operator op => operatorLabel op
  | .openParen => "LeftParentheses"
  | .closeParen => "RightParentheses"

/-- A list of tokens in square brackets. -/
def inspectList (tokens : List Token) : String :=
  "[" ++ ", ".intercalate (tokens.map inspect) ++ "]"

end SymbolicCalculus.Token
