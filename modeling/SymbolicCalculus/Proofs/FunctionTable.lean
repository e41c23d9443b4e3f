/-
Module: SymbolicCalculus.Proofs.FunctionTable
Layer: Proofs
Purpose: The table of derivatives is right. In a field with a derivation each function is given by a
  relation: sine and cosine by their derivatives and the circle, tangent and cotangent as quotients,
  the arcs, the logarithm and the root as inverses. From the relation of a function at one element
  follows its derivative there, and that is the value of the function's entry in the table.
Trusted boundary: human-reviewed spec
Main exports: Interpretation.IsTrigonometric, Interpretation.Defines,
  derivation_function_eq
-/
import SymbolicCalculus.Proofs.DerivativeSoundness
import SymbolicCalculus.Proofs.FractionDerivations

namespace SymbolicCalculus

variable {K : Type*} [Field K]

namespace Interpretation

/-- The sine and the cosine of an element are as they should be. -/
structure IsTrigonometric (I : Interpretation K) (D : Derivation ℤ K K) (z : K) : Prop where
  derivation_sin : D (I.function .sin z) = I.function .cos z * D z
  derivation_cos : D (I.function .cos z) = -I.function .sin z * D z
  sin_sq_add_cos_sq : I.function .sin z ^ 2 + I.function .cos z ^ 2 = 1

/-- The relation that defines a function at the element `u`. An arc is defined by the sine and the
    cosine of its value, with the same root for both arcs that have one. -/
def Defines (I : Interpretation K) (D : Derivation ℤ K K) (f : ElementaryFunction) (u : K) : Prop :=
  let w := I.function f u
  match f with
  | .sin | .cos => I.IsTrigonometric D u
  | .tan => I.IsTrigonometric D u ∧ w = I.function .sin u / I.function .cos u ∧
      I.function .cos u ≠ 0
  | .cot => I.IsTrigonometric D u ∧ w = I.function .cos u / I.function .sin u ∧
      I.function .sin u ≠ 0
  | .arcsin => I.IsTrigonometric D w ∧ I.function .sin w = u ∧
      I.function .cos w = I.function .sqrt (1 - u ^ 2) ∧ I.function .sqrt (1 - u ^ 2) ≠ 0
  | .arccos => I.IsTrigonometric D w ∧ I.function .cos w = u ∧
      I.function .sin w = I.function .sqrt (1 - u ^ 2) ∧ I.function .sqrt (1 - u ^ 2) ≠ 0
  | .arctan => I.IsTrigonometric D w ∧ I.function .sin w = u * I.function .cos w ∧
      I.function .cos w ≠ 0 ∧ 1 + u ^ 2 ≠ 0
  | .arccot => I.IsTrigonometric D w ∧ I.function .cos w = u * I.function .sin w ∧
      I.function .sin w ≠ 0 ∧ 1 + u ^ 2 ≠ 0
  | .ln => u ≠ 0 ∧ u * D w = D u
  | .sqrt => w ^ 2 = u ∧ w ≠ 0

end Interpretation

/-! ### The values of the entries -/

/-- The factor that each function's derivative has beside the derivative of the argument `u`. -/
def Interpretation.slope (I : Interpretation K) (f : ElementaryFunction) (u : K) : K :=
  match f with
  | .sin => I.function .cos u
  | .cos => -I.function .sin u
  | .tan => 1 / I.function .cos u ^ 2
  | .cot => -1 / I.function .sin u ^ 2
  | .arcsin => 1 / I.function .sqrt (1 - u ^ 2)
  | .arccos => -1 / I.function .sqrt (1 - u ^ 2)
  | .arctan => 1 / (1 + u ^ 2)
  | .arccot => -1 / (1 + u ^ 2)
  | .ln => 1 / u
  | .sqrt => 1 / ((2 : ℤ) * I.function .sqrt u)

/-- An entry of the table has the value that the formula gives. -/
theorem Expr.value_derivativeAt {I : Interpretation K} (hsquare : ∀ a, I.power a 2 = a ^ 2)
    (f : ElementaryFunction) (g : Expr) :
    (f.derivativeAt g).value I = I.slope f (g.value I) := by
  cases f <;>
    simp [ElementaryFunction.derivativeAt, Interpretation.slope, square, sqrtOneMinusSquare, hsquare]

/-! ### The derivatives that follow from the relations -/

namespace Interpretation.IsTrigonometric

variable {I : Interpretation K} {D : Derivation ℤ K K} {z u r : K}

theorem derivation_tan (h : I.IsTrigonometric D z) (hcos : I.function .cos z ≠ 0) :
    D (I.function .sin z / I.function .cos z) = 1 / I.function .cos z ^ 2 * D z := by
  rw [derivation_div, h.derivation_sin, h.derivation_cos]
  field_simp
  linear_combination D z * h.sin_sq_add_cos_sq

theorem derivation_cot (h : I.IsTrigonometric D z) (hsin : I.function .sin z ≠ 0) :
    D (I.function .cos z / I.function .sin z) = -1 / I.function .sin z ^ 2 * D z := by
  rw [derivation_div, h.derivation_sin, h.derivation_cos]
  field_simp
  linear_combination -D z * h.sin_sq_add_cos_sq

theorem derivation_arcsin (h : I.IsTrigonometric D z) (hsin : I.function .sin z = u)
    (hcos : I.function .cos z = r) (hr : r ≠ 0) : D z = 1 / r * D u := by
  have hu := h.derivation_sin
  rw [hsin, hcos] at hu
  rw [hu]
  field_simp

theorem derivation_arccos (h : I.IsTrigonometric D z) (hcos : I.function .cos z = u)
    (hsin : I.function .sin z = r) (hr : r ≠ 0) : D z = -1 / r * D u := by
  have hu := h.derivation_cos
  rw [hcos, hsin] at hu
  rw [hu]
  field_simp

/-- The derivative of `sin z = u * cos z` has a factor `cos z`, and the circle cancels it. -/
theorem derivation_arctan (h : I.IsTrigonometric D z)
    (htan : I.function .sin z = u * I.function .cos z) (hu : 1 + u ^ 2 ≠ 0) :
    D z = 1 / (1 + u ^ 2) * D u := by
  have hcircle := h.sin_sq_add_cos_sq
  have hderivation := h.derivation_sin
  rw [htan, D.leibniz, h.derivation_cos, smul_eq_mul, smul_eq_mul, htan] at hderivation
  rw [htan] at hcircle
  field_simp
  linear_combination -(I.function .cos z * (1 + u ^ 2)) * hderivation +
    (D u - (1 + u ^ 2) * D z) * hcircle

/-- The derivative of `cos z = u * sin z` has a factor `sin z`, and the circle cancels it. -/
theorem derivation_arccot (h : I.IsTrigonometric D z)
    (hcot : I.function .cos z = u * I.function .sin z) (hu : 1 + u ^ 2 ≠ 0) :
    D z = -1 / (1 + u ^ 2) * D u := by
  have hcircle := h.sin_sq_add_cos_sq
  have hderivation := h.derivation_cos
  rw [hcot, D.leibniz, h.derivation_sin, smul_eq_mul, smul_eq_mul, hcot] at hderivation
  rw [hcot] at hcircle
  field_simp
  linear_combination (I.function .sin z * (1 + u ^ 2)) * hderivation -
    (D u + (1 + u ^ 2) * D z) * hcircle

end Interpretation.IsTrigonometric

theorem derivation_ln {D : Derivation ℤ K K} {w u : K} (hu : u ≠ 0) (hln : u * D w = D u) :
    D w = 1 / u * D u := by
  rw [← hln]
  field_simp

theorem derivation_sqrt [CharZero K] (D : Derivation ℤ K K) {w u : K} (hsq : w ^ 2 = u)
    (hw : w ≠ 0) : D w = 1 / (2 * w) * D u := by
  rw [← hsq, sq, D.leibniz, smul_eq_mul]
  field_simp
  ring

/-- The table of derivatives is right at every argument where the function's relation holds. -/
theorem derivation_function_eq [CharZero K] {I : Interpretation K} {D : Derivation ℤ K K}
    (hsquare : ∀ a, I.power a 2 = a ^ 2) (f : ElementaryFunction) (g : Expr)
    (h : I.Defines D f (g.value I)) :
    D (I.function f (g.value I)) = (f.derivativeAt g).value I * D (g.value I) := by
  rw [Expr.value_derivativeAt hsquare]
  cases f with
  | sin => exact h.derivation_sin
  | cos => exact h.derivation_cos
  | tan =>
      obtain ⟨htrig, htan, hcos⟩ := h
      rw [htan]
      exact htrig.derivation_tan hcos
  | cot =>
      obtain ⟨htrig, hcot, hsin⟩ := h
      rw [hcot]
      exact htrig.derivation_cot hsin
  | arcsin =>
      obtain ⟨htrig, hsin, hcos, hne⟩ := h
      exact htrig.derivation_arcsin hsin hcos hne
  | arccos =>
      obtain ⟨htrig, hcos, hsin, hne⟩ := h
      exact htrig.derivation_arccos hcos hsin hne
  | arctan =>
      obtain ⟨htrig, htan, -, hne⟩ := h
      exact htrig.derivation_arctan htan hne
  | arccot =>
      obtain ⟨htrig, hcot, -, hne⟩ := h
      exact htrig.derivation_arccot hcot hne
  | ln =>
      obtain ⟨hne, hln⟩ := h
      exact derivation_ln hne hln
  | sqrt =>
      obtain ⟨hsq, hne⟩ := h
      rw [derivation_sqrt D hsq hne, Interpretation.slope, Int.cast_ofNat]

/-! ### The relations can be met

In the fractions of power series, where the derivative of `arctan(tan(x))` is one. -/

namespace SeriesFraction

open PowerSeries

noncomputable section

variable (K : Type*) [Field K] [Algebra ℚ⟦X⟧ K]

/-- The sine and the cosine are those of the variable, and it is the arc of their quotient. -/
def interpretation : Interpretation K where
  identifier _ := algebraMap ℚ⟦X⟧ K X
  power a _ := a ^ 2
  function
    | .sin => fun _ => algebraMap ℚ⟦X⟧ K (PowerSeries.sin ℚ)
    | .cos => fun _ => algebraMap ℚ⟦X⟧ K (PowerSeries.cos ℚ)
    | .arctan => fun _ => algebraMap ℚ⟦X⟧ K X
    | _ => fun _ => 0

variable [IsFractionRing ℚ⟦X⟧ K]

theorem charZero : CharZero K :=
  have : CharZero ℚ⟦X⟧ := algebraRat.charZero _
  charZero_of_injective_algebraMap (IsFractionRing.injective ℚ⟦X⟧ K)

/-- Differentiation by the variable. -/
def derivation : Derivation ℤ K K :=
  FractionDerivation.extend (d⁄dX ℚ) K

theorem derivation_algebraMap (f : ℚ⟦X⟧) :
    derivation K (algebraMap ℚ⟦X⟧ K f) = algebraMap ℚ⟦X⟧ K (d⁄dX ℚ f) :=
  FractionDerivation.extend_algebraMap _ K f

theorem isTrigonometric_variable :
    (interpretation K).IsTrigonometric (derivation K) (algebraMap ℚ⟦X⟧ K X) where
  derivation_sin := by
    simp [interpretation, derivation_algebraMap, derivative_sinSeries]
  derivation_cos := by
    simp [interpretation, derivation_algebraMap, derivative_cosSeries]
  sin_sq_add_cos_sq := by
    simp [interpretation, ← map_pow, ← map_add, sinSeries_sq_add_cosSeries_sq]

/-- `sin(x) / cos(x)` -/
def tangent : Expr :=
  .quotient (.call .sin (.identifier "x")) (.call .cos (.identifier "x"))

theorem defines_arctan_tangent :
    (interpretation K).Defines (derivation K) .arctan (tangent.value (interpretation K)) := by
  have hseries : PowerSeries.cos ℚ ≠ 0 := by
    intro h
    have hconstant := constantCoeff_cosSeries
    rw [h, map_zero] at hconstant
    exact zero_ne_one hconstant
  have hcos : algebraMap ℚ⟦X⟧ K (PowerSeries.cos ℚ) ≠ 0 :=
    (map_ne_zero_iff _ (IsFractionRing.injective ℚ⟦X⟧ K)).mpr hseries
  have hsin : algebraMap ℚ⟦X⟧ K (PowerSeries.sin ℚ) =
      tangent.value (interpretation K) * algebraMap ℚ⟦X⟧ K (PowerSeries.cos ℚ) :=
    (div_mul_cancel₀ _ hcos).symm
  refine ⟨isTrigonometric_variable K, hsin, hcos, fun h => ?_⟩
  have hcircle : algebraMap ℚ⟦X⟧ K (PowerSeries.sin ℚ) ^ 2 +
      algebraMap ℚ⟦X⟧ K (PowerSeries.cos ℚ) ^ 2 = 1 :=
    (isTrigonometric_variable K).sin_sq_add_cos_sq
  have hzero : (0 : K) = 1 := by
    calc
      0 = (1 + tangent.value (interpretation K) ^ 2) *
          algebraMap ℚ⟦X⟧ K (PowerSeries.cos ℚ) ^ 2 := by rw [h, zero_mul]
      _ = algebraMap ℚ⟦X⟧ K (PowerSeries.sin ℚ) ^ 2 +
          algebraMap ℚ⟦X⟧ K (PowerSeries.cos ℚ) ^ 2 := by rw [hsin]; ring
      _ = 1 := hcircle
  exact zero_ne_one hzero

end

theorem derivation_arctan_tangent :
    (∀ a, (interpretation (FractionRing ℚ⟦X⟧)).power a 2 = a ^ 2) ∧
      (interpretation (FractionRing ℚ⟦X⟧)).Defines (derivation _) .arctan
        (tangent.value (interpretation _)) ∧
      derivation _ ((interpretation (FractionRing ℚ⟦X⟧)).function .arctan
          (tangent.value (interpretation _))) =
        (ElementaryFunction.arctan.derivativeAt tangent).value (interpretation _) *
          derivation _ (tangent.value (interpretation _)) :=
  have hsquare : ∀ a, (interpretation (FractionRing ℚ⟦X⟧)).power a 2 = a ^ 2 := fun _ => rfl
  have : CharZero (FractionRing ℚ⟦X⟧) := charZero _
  ⟨hsquare, defines_arctan_tangent _,
    derivation_function_eq hsquare .arctan tangent (defines_arctan_tangent _)⟩

end SeriesFraction

end SymbolicCalculus
