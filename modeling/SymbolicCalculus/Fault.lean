/-
Module: SymbolicCalculus.Fault
Layer: Faults
Purpose: Why an expression has no derivative. A fault holds the things it is about (the character,
  the function, the operand left over); the wording is in one place, as a chain of messages from the
  general to the particular. A failure adds which text was being read when the fault came up.
Trusted boundary: none
Main exports: Fault, Fault.description, Fault.chain, Failure, Failure.chain, Failure.message
-/
import SymbolicCalculus.Expr.Infix

namespace SymbolicCalculus

/-- Why an expression can not be read or differentiated. -/
inductive Fault where
  /-- A character that belongs to no token, and how many bytes of UTF-8 stand before it. -/
  | unexpectedCharacter (character : Char) (position : Nat)
  /-- An integer that does not fit into 64 bits with a sign, as it was written. -/
  | literalOutOfRange (literal : String)
  | mismatchedParenthesis
  | missingArgument (function : ElementaryFunction)
  | emptyArgument (function : ElementaryFunction)
  /-- An operator or a function with too few operands before it. -/
  | missingOperand (operator : Token)
  /-- An operand that no operator connects to the operand after it. -/
  | danglingOperand (operand : Expr)
  | emptyExpression
  | invalidVariable (name : String)
  /-- A power that is neither `x ^ n` nor `a ^ x`. -/
  | unsupportedPower (power : Expr)
  | nestingTooDeep (limit : Nat)
deriving DecidableEq, Repr

namespace Fault

/-- Faults of the text itself, which all report a malformed expression. -/
def isMalformation : Fault → Bool
  | .unsupportedPower _ | .nestingTooDeep _ => false
  | _ => true

/-- What is wrong, in one line. -/
def description : Fault → String
  | .unexpectedCharacter c position =>
      "unexpected character '" ++ c.toString ++ "' at position " ++ position.repr
  | .literalOutOfRange literal => "integer literal " ++ literal ++ " is out of range"
  | .mismatchedParenthesis => "mismatched parenthesis"
  | .missingArgument f => "expected '(' after function " ++ f.name
  | .emptyArgument f => "function " ++ f.name ++ " has an empty argument"
  | .missingOperand operator => "operator " ++ operator.text ++ " is missing an operand"
  | .danglingOperand operand =>
      "operand " ++ operand.render ++ " is not connected to the rest of the expression"
  | .emptyExpression => "the expression is empty"
  | .invalidVariable name => "'" ++ name ++ "' can not be used as a variable"
  | .unsupportedPower power =>
      "Can not differentiate " ++ power.render ++ ": only x^n and a^x powers are supported"
  | .nestingTooDeep limit => "Expression is nested deeper than the limit of " ++ limit.repr

/-- What a fault says first. All malformations say the same. -/
def headline (fault : Fault) : String :=
  if fault.isMalformation then "Malformed expression" else fault.description

/-- What lies behind the headline of a fault. -/
def causes (fault : Fault) : List String :=
  if fault.isMalformation then [fault.description] else []

/-- The messages of a fault, the general one first. -/
def chain (fault : Fault) : List String :=
  fault.headline :: fault.causes

end Fault

/-- A fault together with what was being done to which text. -/
inductive Failure where
  | plain (fault : Fault)
  | reading (expression : String) (fault : Fault)
  | parsing (expression : String) (fault : Fault)
deriving DecidableEq, Repr

namespace Failure

/-- The fault behind a failure. -/
def fault : Failure → Fault
  | .plain fault | .reading _ fault | .parsing _ fault => fault

/-- What a failure says first: what was being done, or the fault itself. -/
def headline : Failure → String
  | .plain fault => fault.headline
  | .reading expression _ => "Could not read expression '" ++ expression ++ "'"
  | .parsing expression _ => "Could not parse expression '" ++ expression ++ "'"

/-- What lies behind the headline of a failure. -/
def causes : Failure → List String
  | .plain fault => fault.causes
  | .reading _ fault | .parsing _ fault => fault.chain

/-- The messages of a failure, the outermost first. -/
def chain (failure : Failure) : List String :=
  failure.headline :: failure.causes

/-- A failure in one line. -/
def message (failure : Failure) : String :=
  ": ".intercalate failure.chain

end Failure

end SymbolicCalculus
