/-
Module: SymbolicCalculus.Derivative.Rules
Layer: Differentiation
Purpose: The rules of differentiation for one node, given the derivatives of its operands. A few
  terms are folded on the spot: a zero summand, a zero subtrahend, two equal summands, and a product
  with a zero derivative. Nothing else is simplified. A power has a rule in two shapes only, and the
  shape is decided by looking at base and exponent.
Trusted boundary: none
Main exports: sumRule, differenceRule, productRule, quotientRule, PowerShape, PowerShape.of
-/
import SymbolicCalculus.Derivative.Table

namespace SymbolicCalculus

namespace Expr

/-- The integer zero, which marks a derivative that vanishes. -/
abbrev zero : Expr := .literal 0

/-- The sum of two derivatives: zero summands go, and two equal ones become twice the one. -/
def sumRule (left right : Expr) : Expr :=
  if left = zero then right
  else if right = zero then left
  else if left = right then .product (.literal 2) left
  else .sum left right

/-- The difference of two derivatives: a zero subtrahend goes. -/
def differenceRule (left right : Expr) : Expr :=
  if right = zero then left else .difference left right

/-- The derivative of the product of `f` and `g`, whose derivatives are `f'` and `g'`. A term with a
    zero derivative in it goes. -/
def productRule (f g f' g' : Expr) : Expr :=
  if f' = zero then
    if g' = zero then zero else .product f g'
  else if g' = zero then .product f' g
  else .sum (.product f' g) (.product f g')

/-- The derivative of the quotient of `f` and `g`, whose derivatives are `f'` and `g'`. -/
def quotientRule (f g f' g' : Expr) : Expr :=
  .quotient (.difference (.product f' g) (.product f g')) g.square

end Expr

/-- What can be done about a power when differentiating by a variable `x`. -/
inductive PowerShape where
  /-- The power `x ^ n` for an integer `n`. -/
  | variableToLiteral (exponent : Int64)
  /-- The power `a ^ x` for a leaf `a` other than `x`. -/
  | constantToVariable
  /-- A power that does not mention `x`. -/
  | constant
  /-- Any other power. -/
  | unsupported
deriving DecidableEq, Repr

/-- The shape of a power when differentiating by a variable. -/
def PowerShape.of (name : String) (base exponent : Expr) : PowerShape :=
  match base, exponent with
  | .identifier b, .literal n => if b = name then .variableToLiteral n else .constant
  | _, _ =>
      if base.isAtom && !base.isIdentifier name && exponent.isIdentifier name then
        .constantToVariable
      else if base.mentions name || exponent.mentions name then .unsupported
      else .constant

namespace PowerShape

/-- A power is constant exactly when it does not mention the variable. -/
theorem of_eq_constant_iff {name : String} {base exponent : Expr} :
    of name base exponent = .constant ↔ (Expr.power base exponent).mentions name = false := by
  unfold of
  split
  · simp [Expr.mentions]
  · split
    · rename_i h
      simp only [Bool.and_eq_true, Expr.isIdentifier_iff] at h
      simp [h.2, Expr.mentions]
    · split
      · rename_i h
        simpa [Expr.mentions, Classical.or_iff_not_imp_left] using h
      · rename_i h
        simpa [Expr.mentions] using h

/-- The rule for `a ^ x` applies exactly to the powers of a leaf other than `x` to `x`. -/
theorem of_eq_constantToVariable_iff {name : String} {base exponent : Expr} :
    of name base exponent = .constantToVariable ↔
      base.isAtom = true ∧ base ≠ .identifier name ∧ exponent = .identifier name := by
  have hshape : (base.isAtom && !base.isIdentifier name && exponent.isIdentifier name) = true ↔
      base.isAtom = true ∧ base ≠ .identifier name ∧ exponent = .identifier name := by
    rw [Bool.and_eq_true, Bool.and_eq_true, Bool.not_eq_true', ← Bool.not_eq_true,
      Expr.isIdentifier_iff, Expr.isIdentifier_iff, and_assoc]
  unfold of
  split
  · split <;> simp
  · rw [← hshape]
    split
    · rename_i h
      simp [h]
    · rename_i h
      split <;> simp [h]

/-- The rule for `x ^ n` applies exactly to the powers written so. -/
theorem of_eq_variableToLiteral_iff {name : String} {base exponent : Expr} {n : Int64} :
    of name base exponent = .variableToLiteral n ↔
      base = .identifier name ∧ exponent = .literal n := by
  unfold of
  split
  · split <;> simp_all
  · rename_i h
    constructor
    · split
      · simp
      · split <;> simp
    · rintro ⟨rfl, rfl⟩
      exact (h name n rfl rfl).elim

end PowerShape

end SymbolicCalculus
