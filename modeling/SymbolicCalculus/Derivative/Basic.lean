/-
Module: SymbolicCalculus.Derivative.Basic
Layer: Differentiation
Purpose: The derivative of an expression. A node is checked before its operands, and those from
  left to right, so the first fault in that order is the one reported; an operand of a power is never
  differentiated. The root is at level zero, and a node at a level beyond the limit is refused.
Trusted boundary: none
Main exports: Expr.derivative, Expr.powerDerivative, differentiate
-/
import SymbolicCalculus.Derivative.Rules
import SymbolicCalculus.Reading
import SymbolicCalculus.Settings

namespace SymbolicCalculus

namespace Expr

/-- The derivative of a power, by its shape. The rule for `x ^ n` needs the exponent one below `n`,
    which the least integer does not have. -/
def powerDerivative (settings : Settings) (base exponent : Expr) : Logged Fault Expr :=
  match PowerShape.of settings.withRespectTo base exponent with
  | .variableToLiteral n => do
      Logged.note (.powerRule (.power base exponent))
      if n = Int64.minValue then
        Logged.fail (.literalOutOfRange (Token.literal n).text)
      else
        return .product (.literal n) (.power base (.literal (n - 1)))
  | .constantToVariable => do
      Logged.note (.exponentialRule (.power base exponent))
      return .product (.call .ln base) (.power base exponent)
  | .constant => return zero
  | .unsupported =>
      match settings.unsupportedPowers with
      | .zero => do
          Logged.note (.takenAsZero (.power base exponent))
          return zero
      | .reject => Logged.fail (.unsupportedPower (.power base exponent))

/-- The derivative of an expression that lies the given number of levels below the root. -/
def derivativeAtLevel (settings : Settings) (level : Nat) (e : Expr) : Logged Fault Expr :=
  if settings.maxDepth < level then Logged.fail (.nestingTooDeep settings.maxDepth)
  else
    match e with
    | .literal _ => return zero
    | .identifier name =>
        return if name = settings.withRespectTo then .literal 1 else zero
    | .sum f g => do
        let f' ← derivativeAtLevel settings (level + 1) f
        let g' ← derivativeAtLevel settings (level + 1) g
        return sumRule f' g'
    | .difference f g => do
        let f' ← derivativeAtLevel settings (level + 1) f
        let g' ← derivativeAtLevel settings (level + 1) g
        return differenceRule f' g'
    | .product f g => do
        let f' ← derivativeAtLevel settings (level + 1) f
        let g' ← derivativeAtLevel settings (level + 1) g
        return productRule f g f' g'
    | .quotient f g => do
        let f' ← derivativeAtLevel settings (level + 1) f
        let g' ← derivativeAtLevel settings (level + 1) g
        return quotientRule f g f' g'
    | .power base exponent => powerDerivative settings base exponent
    | .call f g => do
        Logged.note (.chainRule (.call f g))
        let g' ← derivativeAtLevel settings (level + 1) g
        return .product (f.derivativeAt g) g'

/-- The derivative of an expression. -/
def derivative (settings : Settings) (e : Expr) : Logged Fault Expr :=
  derivativeAtLevel settings 0 e

end Expr

/-- The derivative of a text, as text. Unusable settings are refused before the text is read. -/
def differentiate (settings : Settings) (text : String) : Logged Failure String := do
  (Logged.lift settings.validate).mapError .plain
  let e ← Expr.read settings.maxDepth text
  Logged.note (.expression e)
  let e' ← (e.derivative settings).mapError .plain
  Logged.note (.derivative e')
  return e'.render

end SymbolicCalculus
