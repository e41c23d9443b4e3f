/-
Module: SymbolicCalculus.Token.Printing
Layer: Tokens
Purpose: Token lists as lines of text. A line of infix tokens leaves no blank inside parentheses nor
  between a function and its parenthesis; a line of postfix tokens puts one blank between any two.
Trusted boundary: none
Main exports: Token.opensGroup, Token.separator, Token.infixLine, Token.postfixLine
-/
import SymbolicCalculus.Token.Basic

namespace SymbolicCalculus.Token

/-- Tokens after which the next token follows without a blank. -/
def opensGroup : Token → Bool
  | .openParen | .function _ => true
  | .literal _ | .identifier _ | .operator _ | .closeParen => false

/-- What stands between two neighbouring infix tokens. -/
def separator (before after : Token) : String :=
  if before.opensGroup || after == .closeParen then "" else " "

/-- The texts of infix tokens with what stands between them. -/
def infixPieces : List Token → List String
  | [] => []
  | [token] => [token.text]
  | token :: next :: rest => token.text :: separator token next :: infixPieces (next :: rest)

/-- The line that shows infix tokens. -/
def infixLine (tokens : List Token) : String :=
  String.join (infixPieces tokens)

/-- The line that shows postfix tokens. -/
def postfixLine (tokens : List Token) : String :=
  " ".intercalate (tokens.map text)

end SymbolicCalculus.Token
