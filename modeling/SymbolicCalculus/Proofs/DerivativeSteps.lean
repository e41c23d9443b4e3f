/-
Module: SymbolicCalculus.Proofs.DerivativeSteps
Layer: Proofs
Purpose: One step of differentiation for each kind of node within the limit. The operations other
  than the power go alike: they differentiate both operands, from left to right, and then apply a
  rule that neither fails nor depends on the settings. Statements about whole runs, with their
  records and faults, are proved by induction on expressions along these equations.
Trusted boundary: none
Main exports: Expr.derivativeAtLevel_of_lt, Expr.derivativeAtLevel_literal,
  Expr.derivativeAtLevel_identifier, Expr.derivativeAtLevel_sum, Expr.derivativeAtLevel_difference,
  Expr.derivativeAtLevel_product, Expr.derivativeAtLevel_quotient, Expr.exists_rule,
  Expr.derivativeAtLevel_power, Expr.derivativeAtLevel_call
-/
import SymbolicCalculus.Derivative.Basic

namespace SymbolicCalculus.Expr

variable {settings : Settings} {level : Nat}

/-- A node beyond the limit is refused, whatever it is. -/
theorem derivativeAtLevel_of_lt (h : settings.maxDepth < level) (e : Expr) :
    e.derivativeAtLevel settings level = Logged.fail (.nestingTooDeep settings.maxDepth) := by
  unfold derivativeAtLevel
  rw [if_pos h]

theorem derivativeAtLevel_literal (h : level ≤ settings.maxDepth) (value : Int64) :
    (literal value).derivativeAtLevel settings level = pure zero := by
  rw [derivativeAtLevel, if_neg (Nat.not_lt.mpr h)]

theorem derivativeAtLevel_identifier (h : level ≤ settings.maxDepth) (name : String) :
    (identifier name).derivativeAtLevel settings level =
      pure (if name = settings.withRespectTo then .literal 1 else zero) := by
  rw [derivativeAtLevel, if_neg (Nat.not_lt.mpr h)]

theorem derivativeAtLevel_sum (h : level ≤ settings.maxDepth) (f g : Expr) :
    (sum f g).derivativeAtLevel settings level = do
      let f' ← f.derivativeAtLevel settings (level + 1)
      let g' ← g.derivativeAtLevel settings (level + 1)
      return sumRule f' g' := by
  rw [derivativeAtLevel, if_neg (Nat.not_lt.mpr h)]

theorem derivativeAtLevel_difference (h : level ≤ settings.maxDepth) (f g : Expr) :
    (difference f g).derivativeAtLevel settings level = do
      let f' ← f.derivativeAtLevel settings (level + 1)
      let g' ← g.derivativeAtLevel settings (level + 1)
      return differenceRule f' g' := by
  rw [derivativeAtLevel, if_neg (Nat.not_lt.mpr h)]

theorem derivativeAtLevel_product (h : level ≤ settings.maxDepth) (f g : Expr) :
    (product f g).derivativeAtLevel settings level = do
      let f' ← f.derivativeAtLevel settings (level + 1)
      let g' ← g.derivativeAtLevel settings (level + 1)
      return productRule f g f' g' := by
  rw [derivativeAtLevel, if_neg (Nat.not_lt.mpr h)]

theorem derivativeAtLevel_quotient (h : level ≤ settings.maxDepth) (f g : Expr) :
    (quotient f g).derivativeAtLevel settings level = do
      let f' ← f.derivativeAtLevel settings (level + 1)
      let g' ← g.derivativeAtLevel settings (level + 1)
      return quotientRule f g f' g' := by
  rw [derivativeAtLevel, if_neg (Nat.not_lt.mpr h)]

/-- An operation other than a power has a rule that joins the derivatives of its operands. -/
theorem exists_rule {op : BinaryOp} (hop : op ≠ .power) (f g : Expr) :
    ∃ rule : Expr → Expr → Expr, ∀ {settings : Settings} {level : Nat},
      level ≤ settings.maxDepth →
        (binary op f g).derivativeAtLevel settings level = do
          let f' ← f.derivativeAtLevel settings (level + 1)
          let g' ← g.derivativeAtLevel settings (level + 1)
          return rule f' g' := by
  cases op with
  | add => exact ⟨sumRule, fun h => derivativeAtLevel_sum h f g⟩
  | subtract => exact ⟨differenceRule, fun h => derivativeAtLevel_difference h f g⟩
  | multiply => exact ⟨productRule f g, fun h => derivativeAtLevel_product h f g⟩
  | divide => exact ⟨quotientRule f g, fun h => derivativeAtLevel_quotient h f g⟩
  | power => exact absurd rfl hop

theorem derivativeAtLevel_power (h : level ≤ settings.maxDepth) (base exponent : Expr) :
    (power base exponent).derivativeAtLevel settings level =
      powerDerivative settings base exponent := by
  rw [derivativeAtLevel, if_neg (Nat.not_lt.mpr h)]

/-- The chain rule is recorded before the argument is differentiated. -/
theorem derivativeAtLevel_call (h : level ≤ settings.maxDepth) (f : ElementaryFunction) (g : Expr) :
    (call f g).derivativeAtLevel settings level = do
      Logged.note (.chainRule (.call f g))
      let g' ← g.derivativeAtLevel settings (level + 1)
      return .product (f.derivativeAt g) g' := by
  rw [derivativeAtLevel, if_neg (Nat.not_lt.mpr h)]

end SymbolicCalculus.Expr
