/-
Module: SymbolicCalculus.Proofs.DerivativeRelation
Layer: Proofs
Purpose: Differentiation as a relation, with one rule for each way in which a node can come to a
  derivative. The computation checks levels, keeps records and fails; none of that says what a
  derivative looks like, so statements about derivatives are proved by induction on this relation
  and reach the computation through `hasDerivative_of_derivative`.
Trusted boundary: none
Main exports: HasDerivative, toInt_sub_one, hasDerivative_of_powerDerivative,
  hasDerivative_of_derivativeAtLevel, hasDerivative_of_derivative
-/
import SymbolicCalculus.Proofs.DerivativeSteps

namespace SymbolicCalculus

/-- `HasDerivative settings e e'` says that the rules in force make `e'` of `e`. A power that is
    neither constant nor of a known shape has a derivative only where such powers count as zero. -/
inductive HasDerivative (settings : Settings) : Expr → Expr → Prop where
  | literal (value : Int64) : HasDerivative settings (.literal value) .zero
  | variable : HasDerivative settings (.identifier settings.withRespectTo) (.literal 1)
  | constant {name : String} : name ≠ settings.withRespectTo →
      HasDerivative settings (.identifier name) .zero
  | sum {f g f' g' : Expr} : HasDerivative settings f f' → HasDerivative settings g g' →
      HasDerivative settings (.sum f g) (Expr.sumRule f' g')
  | difference {f g f' g' : Expr} : HasDerivative settings f f' → HasDerivative settings g g' →
      HasDerivative settings (.difference f g) (Expr.differenceRule f' g')
  | product {f g f' g' : Expr} : HasDerivative settings f f' → HasDerivative settings g g' →
      HasDerivative settings (.product f g) (Expr.productRule f g f' g')
  | quotient {f g f' g' : Expr} : HasDerivative settings f f' → HasDerivative settings g g' →
      HasDerivative settings (.quotient f g) (Expr.quotientRule f g f' g')
  | variablePower {n : Int64} : n ≠ Int64.minValue →
      HasDerivative settings (.power (.identifier settings.withRespectTo) (.literal n))
        (.product (.literal n)
          (.power (.identifier settings.withRespectTo) (.literal (n - 1))))
  | exponential {a : Expr} : a.isAtom = true → a ≠ .identifier settings.withRespectTo →
      HasDerivative settings (.power a (.identifier settings.withRespectTo))
        (.product (.call .ln a) (.power a (.identifier settings.withRespectTo)))
  | constantPower {base exponent : Expr} :
      (Expr.power base exponent).mentions settings.withRespectTo = false →
      HasDerivative settings (.power base exponent) .zero
  | ignoredPower {base exponent : Expr} : settings.unsupportedPowers = .zero →
      PowerShape.of settings.withRespectTo base exponent = .unsupported →
      HasDerivative settings (.power base exponent) .zero
  | call {f : ElementaryFunction} {g g' : Expr} : HasDerivative settings g g' →
      HasDerivative settings (.call f g) (.product (f.derivativeAt g) g')

/-- One below an integer other than the least is what it is in the integers. -/
theorem toInt_sub_one {n : Int64} (h : n ≠ Int64.minValue) : (n - 1).toInt = n.toInt - 1 := by
  have hne : n.toInt ≠ -2 ^ 63 := fun heq => h (Int64.toInt_inj.mp (by rw [heq]; rfl))
  have hlow := n.le_toInt
  have hhigh := n.toInt_lt
  have hone : (1 : Int64).toInt = 1 := rfl
  rw [Int64.toInt_sub, hone]
  exact Int.bmod_eq_of_le (by omega) (by omega)

/-- What the rule for powers returns is a derivative. -/
theorem hasDerivative_of_powerDerivative {settings : Settings} {base exponent e' : Expr}
    (h : (Expr.powerDerivative settings base exponent).outcome = .ok e') :
    HasDerivative settings (.power base exponent) e' := by
  unfold Expr.powerDerivative at h
  split at h
  · rename_i n hshape
    rcases PowerShape.of_eq_variableToLiteral_iff.mp hshape with ⟨rfl, rfl⟩
    rcases Logged.outcome_bind_eq_ok_iff.mp h with ⟨_, _, h⟩
    split at h
    · simp at h
    · rename_i hn
      cases h
      exact .variablePower hn
  · rename_i hshape
    rcases PowerShape.of_eq_constantToVariable_iff.mp hshape with ⟨hatom, hne, rfl⟩
    rcases Logged.outcome_bind_eq_ok_iff.mp h with ⟨_, _, h⟩
    cases h
    exact .exponential hatom hne
  · rename_i hshape
    cases h
    exact .constantPower (PowerShape.of_eq_constant_iff.mp hshape)
  · rename_i hshape
    split at h
    · rename_i hpolicy
      rcases Logged.outcome_bind_eq_ok_iff.mp h with ⟨_, _, h⟩
      cases h
      exact .ignoredPower hpolicy hshape
    · simp at h

/-- A node whose operands are differentiated first has a derivative only if both have one. -/
theorem outcome_of_operands {x y : Logged Fault Expr} {rule : Expr → Expr → Expr} {e' : Expr}
    (h : (do let f' ← x; let g' ← y; return rule f' g' : Logged Fault Expr).outcome = .ok e') :
    ∃ f' g', x.outcome = .ok f' ∧ y.outcome = .ok g' ∧ e' = rule f' g' := by
  rcases Logged.outcome_bind_eq_ok_iff.mp h with ⟨f', hf, h⟩
  rcases Logged.outcome_bind_eq_ok_iff.mp h with ⟨g', hg, h⟩
  cases h
  exact ⟨f', g', hf, hg, rfl⟩

/-- A node beyond the limit has no derivative. -/
theorem level_le_of_derivativeAtLevel {settings : Settings} {level : Nat} {e e' : Expr}
    (h : (e.derivativeAtLevel settings level).outcome = .ok e') :
    level ≤ settings.maxDepth := by
  apply Nat.le_of_not_lt
  intro hlevel
  rw [Expr.derivativeAtLevel_of_lt hlevel] at h
  cases h

/-- What differentiation returns at any level is a derivative. -/
theorem hasDerivative_of_derivativeAtLevel {settings : Settings} {level : Nat} {e e' : Expr}
    (h : (e.derivativeAtLevel settings level).outcome = .ok e') :
    HasDerivative settings e e' := by
  induction e generalizing level e' with
  | literal value =>
      rw [Expr.derivativeAtLevel_literal (level_le_of_derivativeAtLevel h)] at h
      cases h
      exact .literal value
  | identifier name =>
      rw [Expr.derivativeAtLevel_identifier (level_le_of_derivativeAtLevel h)] at h
      cases h
      by_cases hname : name = settings.withRespectTo
      · rw [if_pos hname, hname]
        exact .variable
      · rw [if_neg hname]
        exact .constant hname
  | binary op f g ihf ihg =>
      have hlevel := level_le_of_derivativeAtLevel h
      cases op with
      | add =>
          rw [Expr.derivativeAtLevel_sum hlevel] at h
          rcases outcome_of_operands h with ⟨f', g', hf, hg, rfl⟩
          exact .sum (ihf hf) (ihg hg)
      | subtract =>
          rw [Expr.derivativeAtLevel_difference hlevel] at h
          rcases outcome_of_operands h with ⟨f', g', hf, hg, rfl⟩
          exact .difference (ihf hf) (ihg hg)
      | multiply =>
          rw [Expr.derivativeAtLevel_product hlevel] at h
          rcases outcome_of_operands h with ⟨f', g', hf, hg, rfl⟩
          exact .product (ihf hf) (ihg hg)
      | divide =>
          rw [Expr.derivativeAtLevel_quotient hlevel] at h
          rcases outcome_of_operands h with ⟨f', g', hf, hg, rfl⟩
          exact .quotient (ihf hf) (ihg hg)
      | power =>
          rw [Expr.derivativeAtLevel_power hlevel] at h
          exact hasDerivative_of_powerDerivative h
  | call f g ih =>
      rw [Expr.derivativeAtLevel_call (level_le_of_derivativeAtLevel h)] at h
      rcases Logged.outcome_bind_eq_ok_iff.mp h with ⟨_, _, h⟩
      rcases Logged.outcome_bind_eq_ok_iff.mp h with ⟨g', hg, h⟩
      cases h
      exact .call (ih hg)

/-- What differentiation returns is a derivative. -/
theorem hasDerivative_of_derivative {settings : Settings} {e e' : Expr}
    (h : (e.derivative settings).outcome = .ok e') : HasDerivative settings e e' :=
  hasDerivative_of_derivativeAtLevel h

end SymbolicCalculus
