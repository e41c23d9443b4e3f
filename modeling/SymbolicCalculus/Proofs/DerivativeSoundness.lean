/-
Module: SymbolicCalculus.Proofs.DerivativeSoundness
Layer: Proofs
Purpose: Differentiation is sound: in a field with a derivation, the value of the derivative of an
  expression is the derivative of its value. The maps for powers and functions are arbitrary but
  for the laws in `Interpretation.Obeys`, which are asked of the nodes of the expression alone.
  Every rule of differentiation has one lemma about its value, and so the folds are dealt with
  before the induction, which runs over the rules.
Trusted boundary: none
Main exports: Interpretation.Obeys, derivation_eq_zero_of_not_mentions,
  value_of_hasDerivative, value_derivative
-/
import Mathlib
import SymbolicCalculus.Proofs.DerivativeRelation
import SymbolicCalculus.Proofs.RationalFunctions
import SymbolicCalculus.Proofs.Value

namespace SymbolicCalculus

variable {K : Type*} [Field K]

/-- The laws under which a derivation `D` follows the rules of differentiation by the variable
    `x` at the nodes of the expression `e`. A derivative of a function is the value of its entry in
    the table of derivatives. -/
structure Interpretation.Obeys (I : Interpretation K) (D : Derivation ℤ K K) (x : String)
    (e : Expr) : Prop where
  ofVariable : D (I.identifier x) = 1
  ofConstant : ∀ name, name ≠ x → D (I.identifier name) = 0
  ofCall : ∀ f u, .call f u ∈ e.subtrees →
    D (I.function f (u.value I)) = (f.derivativeAt u).value I * D (u.value I)
  ofSquare : ∀ u ∈ e.subtrees, I.power (u.value I) 2 = u.value I * u.value I
  ofVariablePower : ∀ n : Int64, n ≠ Int64.minValue →
    .power (.identifier x) (.literal n) ∈ e.subtrees →
    D (I.power (I.identifier x) (n.toInt : K)) =
      n.toInt * I.power (I.identifier x) ((n.toInt - 1 : ℤ) : K)
  ofExponential : ∀ a, .power a (.identifier x) ∈ e.subtrees → D (a.value I) = 0 →
    D (I.power (a.value I) (I.identifier x)) =
      I.function .ln (a.value I) * I.power (a.value I) (I.identifier x)
  ofConstantPower : ∀ u w, .power u w ∈ e.subtrees → D (u.value I) = 0 → D (w.value I) = 0 →
    D (I.power (u.value I) (w.value I)) = 0

/-! ### The values of the rules

A fold replaces an expression by another of the same value, so the value of a rule is the formula
that it stands for, whichever fold applies. -/

namespace Expr

variable (I : Interpretation K)

theorem value_sumRule (f' g' : Expr) : (sumRule f' g').value I = f'.value I + g'.value I := by
  unfold sumRule
  split
  · rename_i hf
    rw [hf, value_zero, zero_add]
  · split
    · rename_i hg
      rw [hg, value_zero, add_zero]
    · split
      · rename_i heq
        have htwo : (Int64.toInt 2) = 2 := rfl
        rw [heq, value_product, value_literal, htwo, Int.cast_ofNat, two_mul]
      · exact value_sum I f' g'

theorem value_differenceRule (f' g' : Expr) :
    (differenceRule f' g').value I = f'.value I - g'.value I := by
  unfold differenceRule
  split
  · rename_i hg
    rw [hg, value_zero, sub_zero]
  · exact value_difference I f' g'

theorem value_productRule (f g f' g' : Expr) :
    (productRule f g f' g').value I = f'.value I * g.value I + f.value I * g'.value I := by
  unfold productRule
  split
  · rename_i hf
    split
    · rename_i hg
      rw [hf, hg, value_zero, zero_mul, mul_zero, add_zero]
    · rw [hf, value_product, value_zero, zero_mul, zero_add]
  · split
    · rename_i hg
      rw [hg, value_product, value_zero, mul_zero, add_zero]
    · rw [value_sum, value_product, value_product]

theorem value_quotientRule {f g f' g' : Expr}
    (hsquare : I.power (g.value I) 2 = g.value I * g.value I) :
    (quotientRule f g f' g').value I =
      (f'.value I * g.value I - f.value I * g'.value I) / (g.value I * g.value I) := by
  have htwo : (Int64.toInt 2) = 2 := rfl
  rw [quotientRule, square, value_quotient, value_difference, value_product, value_product,
    value_power, value_literal, htwo, Int.cast_ofNat, hsquare]

end Expr

/-! ### The derivative of a value -/

/-- The quotient rule of a derivation, with the square of the divisor written as a product. -/
theorem derivation_div (D : Derivation ℤ K K) (a b : K) :
    D (a / b) = (D a * b - a * D b) / (b * b) := by
  rw [D.leibniz_div, smul_eq_mul, smul_eq_mul, smul_eq_mul, div_eq_mul_inv, mul_inv]
  ring

variable {I : Interpretation K} {D : Derivation ℤ K K}

/-- The value of an expression that does not mention the variable is a constant. -/
theorem derivation_eq_zero_of_not_mentions {x : String} {root e : Expr} (laws : I.Obeys D x root)
    (hroot : e ∈ root.subtrees) (h : e.mentions x = false) : D (e.value I) = 0 := by
  induction e with
  | literal n => exact D.map_intCast n.toInt
  | identifier name => exact laws.ofConstant name (by simpa [Expr.mentions] using h)
  | binary op f g ihf ihg =>
      obtain ⟨hf, hg⟩ := Expr.operands_mem_subtrees hroot
      obtain ⟨mf, mg⟩ : f.mentions x = false ∧ g.mentions x = false := by
        simpa [Expr.mentions] using h
      have df := ihf hf mf
      have dg := ihg hg mg
      cases op with
      | add => rw [Expr.value_sum, D.map_add, df, dg, add_zero]
      | subtract => rw [Expr.value_difference, D.map_sub, df, dg, sub_zero]
      | multiply => rw [Expr.value_product, D.leibniz, df, dg, smul_zero, smul_zero, add_zero]
      | divide => rw [Expr.value_quotient, derivation_div, df, dg, zero_mul, mul_zero, sub_zero,
          zero_div]
      | power => exact laws.ofConstantPower f g hroot df dg
  | call f g ih =>
      have dg := ih (Expr.argument_mem_subtrees hroot) h
      rw [Expr.value_call, laws.ofCall f g hroot, dg, mul_zero]

/-- The induction over the rules: at every node of an expression that obeys the laws. -/
theorem value_of_hasDerivative {settings : Settings} {root e e' : Expr}
    (laws : I.Obeys D settings.withRespectTo root) (hpolicy : settings.unsupportedPowers = .reject)
    (h : HasDerivative settings e e') (hroot : e ∈ root.subtrees) :
    e'.value I = D (e.value I) := by
  induction h with
  | literal n => rw [Expr.value_zero, Expr.value_literal, D.map_intCast]
  | «variable» =>
      have hone : (Int64.toInt 1) = 1 := rfl
      rw [Expr.value_literal, Expr.value_identifier, laws.ofVariable, hone, Int.cast_one]
  | constant hname => rw [Expr.value_zero, Expr.value_identifier, laws.ofConstant _ hname]
  | sum _ _ ihf ihg =>
      obtain ⟨hf, hg⟩ := Expr.operands_mem_subtrees hroot
      rw [Expr.value_sumRule, Expr.value_sum, D.map_add, ihf hf, ihg hg]
  | difference _ _ ihf ihg =>
      obtain ⟨hf, hg⟩ := Expr.operands_mem_subtrees hroot
      rw [Expr.value_differenceRule, Expr.value_difference, D.map_sub, ihf hf, ihg hg]
  | product _ _ ihf ihg =>
      obtain ⟨hf, hg⟩ := Expr.operands_mem_subtrees hroot
      rw [Expr.value_productRule, Expr.value_product, D.leibniz, ihf hf, ihg hg, smul_eq_mul,
        smul_eq_mul]
      ring
  | quotient _ _ ihf ihg =>
      obtain ⟨hf, hg⟩ := Expr.operands_mem_subtrees hroot
      rw [Expr.value_quotientRule I (laws.ofSquare _ hg), Expr.value_quotient, derivation_div,
        ihf hf, ihg hg]
  | variablePower hn =>
      rw [Expr.value_product, Expr.value_power, Expr.value_power, Expr.value_literal,
        Expr.value_literal, Expr.value_identifier, toInt_sub_one hn,
        laws.ofVariablePower _ hn hroot]
  | exponential hatom hne =>
      rename_i a
      have hmentions : a.mentions settings.withRespectTo = false := by
        cases a with
        | literal n => rfl
        | identifier name => simpa [Expr.mentions] using hne
        | binary op f g => simp [Expr.isAtom] at hatom
        | call f g => simp [Expr.isAtom] at hatom
      have da : D (a.value I) = 0 := derivation_eq_zero_of_not_mentions laws
        (Expr.operands_mem_subtrees hroot).1 hmentions
      exact (laws.ofExponential a hroot da).symm
  | constantPower hmentions =>
      rw [Expr.value_zero, derivation_eq_zero_of_not_mentions laws hroot hmentions]
  | ignoredPower hzero _ =>
      rw [hpolicy] at hzero
      cases hzero
  | call _ ih =>
      rw [Expr.value_product, ih (Expr.argument_mem_subtrees hroot), Expr.value_call,
        laws.ofCall _ _ hroot]

/-- Where powers without a rule are refused, the derivative of an expression has the derivative of
    its value for its value. -/
theorem value_derivative {settings : Settings} {e e' : Expr}
    (laws : I.Obeys D settings.withRespectTo e) (hpolicy : settings.unsupportedPowers = .reject)
    (h : (e.derivative settings).outcome = .ok e') : e'.value I = D (e.value I) :=
  value_of_hasDerivative laws hpolicy (hasDerivative_of_derivative h) e.self_mem_subtrees

/-! ### The laws can be met

In the rational functions, with the sine taken to be the identity and the cosine to be one. -/

namespace RationalFunction

/-- The quotient of `sin(x * x)` by `x ^ 3 + a ^ x`. -/
def sineQuotient : Expr :=
  .quotient (.call .sin (.product (.identifier "x") (.identifier "x")))
    (.sum (.power (.identifier "x") (.literal 3)) (.power (.identifier "a") (.identifier "x")))

/-- The derivative of the quotient by `x`. -/
def sineQuotientDerivative : Expr :=
  .quotient
    (.difference
      (.product
        (.product (.call .cos (.product (.identifier "x") (.identifier "x")))
          (.sum (.product (.literal 1) (.identifier "x"))
            (.product (.identifier "x") (.literal 1))))
        (.sum (.power (.identifier "x") (.literal 3)) (.power (.identifier "a") (.identifier "x"))))
      (.product (.call .sin (.product (.identifier "x") (.identifier "x")))
        (.sum (.product (.literal 3) (.power (.identifier "x") (.literal 2)))
          (.product (.call .ln (.identifier "a"))
            (.power (.identifier "a") (.identifier "x"))))))
    (Expr.square
      (.sum (.power (.identifier "x") (.literal 3)) (.power (.identifier "a") (.identifier "x"))))

open scoped Classical in
/-- Squares and cubes as they are, and every identifier but `x` is one, as are all its powers. -/
noncomputable def interpretation : Interpretation (FractionRing (Polynomial ℤ)) where
  identifier name := if name = "x" then variableX _ else 1
  power u w := if w = 2 then u * u else if w = 3 then u * u * u else 1
  function
    | .sin => fun u => u
    | .cos => fun _ => 1
    | _ => fun _ => 0

theorem obeys_sineQuotient :
    interpretation.Obeys (derivation _) "x" sineQuotient where
  ofVariable := by simp [interpretation, derivation_variable]
  ofConstant := by
    intro name hname
    simp [interpretation, hname]
  ofCall := by
    intro f u hu
    obtain ⟨rfl, rfl⟩ : f = .sin ∧ u = .product (.identifier "x") (.identifier "x") := by
      simpa [sineQuotient, Expr.subtrees] using hu
    simp [interpretation, ElementaryFunction.derivativeAt]
  ofSquare := by
    intro u _
    simp [interpretation]
  ofVariablePower := by
    intro n _ hn
    obtain rfl : n = 3 := by simpa [sineQuotient, Expr.subtrees] using hn
    have hthree : (Int64.toInt 3) = 3 := rfl
    rw [hthree]
    simp [interpretation, (derivation _).leibniz, derivation_variable]
    ring
  ofExponential := by
    intro a ha _
    obtain rfl : a = .identifier "a" := by simpa [sineQuotient, Expr.subtrees] using ha
    have htwo : variableX (FractionRing (Polynomial ℤ)) ≠ 2 := variableX_ne_intCast _ 2
    have hthree : variableX (FractionRing (Polynomial ℤ)) ≠ 3 := variableX_ne_intCast _ 3
    simp [interpretation, htwo, hthree]
  ofConstantPower := by
    -- both powers have `x` for an operand, and its derivative is not zero
    intro u w huw hu hw
    have hpowers : (u = .identifier "x" ∧ w = .literal 3) ∨
        (u = .identifier "a" ∧ w = .identifier "x") := by
      simpa [sineQuotient, Expr.subtrees] using huw
    rcases hpowers with ⟨rfl, -⟩ | ⟨-, rfl⟩
    · simp [interpretation, derivation_variable] at hu
    · simp [interpretation, derivation_variable] at hw

theorem value_derivative_sineQuotient :
    interpretation.Obeys (derivation _) "x" sineQuotient ∧
      (sineQuotient.derivative { unsupportedPowers := .reject }).outcome =
        .ok sineQuotientDerivative ∧
      sineQuotientDerivative.value interpretation =
        derivation _ (sineQuotient.value interpretation) :=
  have h : (sineQuotient.derivative { unsupportedPowers := .reject }).outcome =
      .ok sineQuotientDerivative := by cbv
  ⟨obeys_sineQuotient, h, value_derivative obeys_sineQuotient rfl h⟩

end RationalFunction

end SymbolicCalculus
