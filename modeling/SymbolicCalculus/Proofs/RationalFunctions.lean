/-
Module: SymbolicCalculus.Proofs.RationalFunctions
Layer: Proofs
Purpose: A field in which a variable can be differentiated: the rational functions in one variable
  over the integers, with the derivation that takes the variable to one. A rational function is
  developed around its point into a dual number, of which the first part is the function and the
  second its derivative; fractions have such a development because the dual numbers over a field
  with a nonzero first part can be inverted. The laws that theorems about values ask for can be
  met here.
Trusted boundary: none
Main exports: RationalFunction.derivation, RationalFunction.derivation_variable
-/
import Mathlib.Algebra.Polynomial.Eval.Defs
import Mathlib.Algebra.TrivSqZeroExt.Basic
import Mathlib.RingTheory.Derivation.Basic
import Mathlib.RingTheory.Localization.FractionRing

open Polynomial

namespace SymbolicCalculus.RationalFunction

noncomputable section

variable (K : Type*) [Field K] [Algebra ℤ[X] K]

/-- The variable, as a rational function. -/
def variableX : K := algebraMap ℤ[X] K X

/-- A polynomial developed around the variable. -/
def polynomialJet : ℤ[X] →+* TrivSqZeroExt K K :=
  eval₂RingHom (Int.castRingHom _) (TrivSqZeroExt.inl (variableX K) + TrivSqZeroExt.inr 1)

theorem fst_polynomialJet (p : ℤ[X]) : (polynomialJet K p).fst = algebraMap ℤ[X] K p := by
  have h : (TrivSqZeroExt.fstHom K K K : _ →+* K).comp (polynomialJet K) = algebraMap ℤ[X] K := by
    apply ringHom_ext'
    · exact Subsingleton.elim _ _
    · simp [polynomialJet, variableX]
  exact DFunLike.congr_fun h p

variable [IsFractionRing ℤ[X] K]

/-- The development of a nonzero polynomial can be inverted. -/
theorem isUnit_polynomialJet (p : nonZeroDivisors ℤ[X]) : IsUnit (polynomialJet K p) := by
  rw [TrivSqZeroExt.isUnit_iff_isUnit_fst, fst_polynomialJet]
  exact IsLocalization.map_units K p

/-- A rational function developed around the variable. -/
def jet : K →+* TrivSqZeroExt K K :=
  IsLocalization.lift (isUnit_polynomialJet K)

theorem jet_algebraMap (p : ℤ[X]) : jet K (algebraMap ℤ[X] K p) = polynomialJet K p :=
  IsLocalization.lift_eq (isUnit_polynomialJet K) p

theorem fst_jet (a : K) : (jet K a).fst = a := by
  have h : (TrivSqZeroExt.fstHom K K K : _ →+* K).comp (jet K) = RingHom.id K := by
    apply IsLocalization.ringHom_ext (nonZeroDivisors ℤ[X])
    apply RingHom.ext
    intro p
    simp [jet_algebraMap, fst_polynomialJet]
  exact DFunLike.congr_fun h a

/-- The second part of the development. The product of dual numbers is the rule of Leibniz. -/
def derivation : Derivation ℤ K K :=
  Derivation.mk'
    ((TrivSqZeroExt.sndHom K K).toAddMonoidHom.comp (jet K).toAddMonoidHom).toIntLinearMap
    (by
      intro a b
      simp [fst_jet, mul_comm])

theorem derivation_variable : derivation K (variableX K) = 1 := by
  change (jet K (algebraMap ℤ[X] K X)).snd = 1
  rw [jet_algebraMap]
  simp [polynomialJet]

/-- The variable is no integer, since the derivative of an integer is zero. -/
theorem variableX_ne_intCast (n : ℤ) : variableX K ≠ n := by
  intro h
  have hone := derivation_variable K
  rw [h, (derivation K).map_intCast] at hone
  exact zero_ne_one hone

end

end SymbolicCalculus.RationalFunction
