/-
Module: SymbolicCalculus.Proofs.FractionDerivations
Layer: Proofs
Purpose: A field that holds a sine and a cosine. Power series over the rationals are differentiated
  term by term, and any derivation of a ring goes over to its fractions, because these are formally
  étale over the ring and so have no differentials but those of the ring. So the fractions of power
  series are a field with a derivation, in which the series of sine and cosine are each other's
  derivatives up to sign, and their squares add up to one.
Trusted boundary: none
Main exports: FractionDerivation.extend, FractionDerivation.extend_algebraMap,
  derivative_sinSeries, derivative_cosSeries, sinSeries_sq_add_cosSeries_sq
-/
import Mathlib.RingTheory.Etale.Kaehler
import Mathlib.RingTheory.Localization.FractionRing
import Mathlib.RingTheory.PowerSeries.Derivative
import Mathlib.RingTheory.PowerSeries.WellKnown

namespace SymbolicCalculus

/-! ### Derivations of fractions -/

namespace FractionDerivation

open KaehlerDifferential

variable {k R : Type*} [CommRing k] [CommRing R] [Algebra k R] (d : Derivation k R R)
  (K : Type*) [Field K] [Algebra R K] [IsFractionRing R K]

/-- A derivation is linear over the integers, whatever its constants are. -/
def overIntegers : Derivation ℤ R R :=
  .mk' d.toLinearMap.toAddMonoidHom.toIntLinearMap d.leibniz

theorem overIntegers_apply (a : R) : overIntegers d a = d a := rfl

/-- The derivation of fractions that agrees with the given one on the ring. A differential of
    fractions is a fraction of differentials, and those the given derivation maps already. -/
noncomputable def extend : Derivation ℤ K K :=
  have : Algebra.FormallyEtale R K := .of_isLocalization (nonZeroDivisors R)
  let onDifferentials := ((Algebra.linearMap R K).compDer (overIntegers d)).liftKaehlerDifferential
  ((onDifferentials.liftBaseChange K).comp
    (tensorKaehlerEquivOfFormallyEtale ℤ R K).symm.toLinearMap).compDer (D ℤ K)

theorem extend_algebraMap (a : R) : extend d K (algebraMap R K a) = algebraMap R K (d a) := by
  have : Algebra.FormallyEtale R K := .of_isLocalization (nonZeroDivisors R)
  simp [extend, tensorKaehlerEquivOfFormallyEtale_symm_D_algebraMap, overIntegers_apply]

end FractionDerivation

/-! ### Sine and cosine as power series -/

section Series

open PowerSeries
open scoped Nat

/-- What differentiation makes of a coefficient over a factorial. -/
theorem div_factorial_succ_mul (c : ℚ) (n : ℕ) : c / ((n + 1)! : ℕ) * (n + 1) = c / (n ! : ℕ) := by
  have hsucc : (n : ℚ) + 1 ≠ 0 := by positivity
  rw [Nat.factorial_succ, Nat.cast_mul, Nat.cast_succ]
  field_simp

theorem derivative_sinSeries : d⁄dX ℚ (PowerSeries.sin ℚ) = PowerSeries.cos ℚ := by
  ext n
  rw [coeff_derivative, PowerSeries.sin, PowerSeries.cos, coeff_mk, coeff_mk]
  by_cases hn : Even n
  · have hhalf : (n + 1) / 2 = n / 2 := by
      obtain ⟨k, rfl⟩ := hn
      omega
    rw [if_neg (by simpa [parity_simps] using hn), if_pos hn, hhalf]
    exact div_factorial_succ_mul _ n
  · rw [if_pos (by simpa [parity_simps] using hn), if_neg hn, zero_mul]

theorem derivative_cosSeries : d⁄dX ℚ (PowerSeries.cos ℚ) = -PowerSeries.sin ℚ := by
  ext n
  rw [coeff_derivative, map_neg, PowerSeries.sin, PowerSeries.cos, coeff_mk, coeff_mk]
  by_cases hn : Even n
  · rw [if_neg (by simpa [parity_simps] using hn), if_pos hn, zero_mul, neg_zero]
  · have hhalf : (n + 1) / 2 = n / 2 + 1 := by
      obtain ⟨k, rfl⟩ := Nat.not_even_iff_odd.mp hn
      omega
    rw [if_pos (by simpa [parity_simps] using hn), if_neg hn, hhalf, pow_succ, mul_neg_one,
      neg_div, map_neg, neg_mul]
    exact congrArg Neg.neg (div_factorial_succ_mul _ n)

theorem constantCoeff_sinSeries : constantCoeff (PowerSeries.sin ℚ) = 0 := by
  rw [← coeff_zero_eq_constantCoeff_apply, PowerSeries.sin, coeff_mk, if_pos Even.zero]

theorem constantCoeff_cosSeries : constantCoeff (PowerSeries.cos ℚ) = 1 := by
  rw [← coeff_zero_eq_constantCoeff_apply, PowerSeries.cos, coeff_mk, if_pos Even.zero]
  simp

/-- The sum of the squares has derivative zero and begins with one. -/
theorem sinSeries_sq_add_cosSeries_sq :
    PowerSeries.sin ℚ ^ 2 + PowerSeries.cos ℚ ^ 2 = 1 := by
  apply PowerSeries.derivative.ext
  · rw [map_add, derivative_pow, derivative_pow, derivative_sinSeries, derivative_cosSeries,
      derivative_one]
    push_cast
    ring
  · simp [constantCoeff_sinSeries, constantCoeff_cosSeries]

end Series

end SymbolicCalculus
