/-
Module: SymbolicCalculus.Reading
Layer: Expressions
Purpose: From text to expression: the text is cut into tokens, the tokens are put into postfix
  order, and the tree is built from those. The limit bounds both how many function arguments lie in
  one another and how deep the tree is. Reading a text says in its failures which text it was;
  reading tokens has no text to name.
Trusted boundary: none
Main exports: Postfix.reorder, Postfix.read, Expr.parse, Expr.read
-/
import SymbolicCalculus.Expr.Postfix
import SymbolicCalculus.Logged
import SymbolicCalculus.Postfix
import SymbolicCalculus.Token.Lexer

namespace SymbolicCalculus

/-- Infix tokens in postfix order, with a record of the result. -/
def Postfix.reorder (limit : Nat) (tokens : List Token) : Logged Fault (List Token) := do
  let reordered ← Logged.lift (Postfix.ofInfix limit tokens)
  Logged.note (.reordered reordered)
  return reordered

/-- The tokens of a text in postfix order. -/
def Postfix.read (limit : Nat) (text : String) : Logged Fault (List Token) := do
  let tokens ← Logged.lift (Token.tokenize text)
  Postfix.reorder limit tokens

/-- The expression that infix tokens describe. -/
def Expr.parse (limit : Nat) (tokens : List Token) : Logged Fault Expr := do
  let reordered ← Postfix.reorder limit tokens
  Logged.lift (Expr.ofPostfix limit reordered)

/-- The expression that a text describes. -/
def Expr.read (limit : Nat) (text : String) : Logged Failure Expr := do
  let tokens ← (Logged.lift (Token.tokenize text)).mapError (.reading text)
  (Expr.parse limit tokens).mapError (.parsing text)

end SymbolicCalculus
