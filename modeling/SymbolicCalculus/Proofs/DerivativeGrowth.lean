/-
Module: SymbolicCalculus.Proofs.DerivativeGrowth
Layer: Proofs
Purpose: How large a derivative can be. The rules for products, quotients and calls copy operands
  next to their derivatives, but each rule takes every operand only a bounded number of times and
  differentiates it once. So a derivative is at most three times as deep as its expression, and it
  has at most three nodes for each node and each level. A text that is read within a limit has a
  derivative within three times that limit, and nothing behind differentiation checks any limit.
Trusted boundary: none
Main exports: Expr.depth_le_of_hasDerivative, Expr.size_le_of_hasDerivative,
  depth_and_size_of_derivative
-/
import Mathlib.Tactic.Ring
import SymbolicCalculus.Proofs.DerivativeRelation
import SymbolicCalculus.Proofs.ReadExpressions

namespace SymbolicCalculus

namespace Expr

/-! ### The depth of a derivative -/

theorem depth_sumRule_le (f' g' : Expr) : (sumRule f' g').depth ≤ max f'.depth g'.depth + 1 := by
  have hf := f'.depth_pos
  unfold sumRule
  split_ifs
  · omega
  · omega
  · simp only [depth]
    omega
  · exact Nat.le_refl _

theorem depth_differenceRule_le (f' g' : Expr) :
    (differenceRule f' g').depth ≤ max f'.depth g'.depth + 1 := by
  unfold differenceRule
  split_ifs
  · omega
  · exact Nat.le_refl _

theorem depth_productRule_le (f g f' g' : Expr) :
    (productRule f g f' g').depth ≤
      max (max f.depth g.depth) (max f'.depth g'.depth) + 2 := by
  unfold productRule
  split_ifs <;> simp only [depth] <;> omega

theorem depth_quotientRule_le (f g f' g' : Expr) :
    (quotientRule f g f' g').depth ≤
      max (max f.depth g.depth) (max f'.depth g'.depth) + 3 := by
  have hf := f.depth_pos
  simp only [quotientRule, square, depth]
  omega

theorem depth_derivativeAt_le (f : ElementaryFunction) (g : Expr) :
    (f.derivativeAt g).depth ≤ g.depth + 4 := by
  have hg := g.depth_pos
  cases f <;>
    simp only [ElementaryFunction.derivativeAt, square, sqrtOneMinusSquare, depth] <;> omega

variable {settings : Settings} {e e' : Expr}

/-- No rule goes more than three levels above the derivatives of the operands. -/
theorem depth_le_of_hasDerivative (h : HasDerivative settings e e') : e'.depth ≤ 3 * e.depth := by
  induction h with
  | literal value => simp [depth]
  | «variable» => simp [depth]
  | constant _ => simp [depth]
  | @sum f g f' g' _ _ ihf ihg =>
      have hrule := depth_sumRule_le f' g'
      simp only [depth]
      omega
  | @difference f g f' g' _ _ ihf ihg =>
      have hrule := depth_differenceRule_le f' g'
      simp only [depth]
      omega
  | @product f g f' g' _ _ ihf ihg =>
      have hrule := depth_productRule_le f g f' g'
      simp only [depth]
      omega
  | @quotient f g f' g' _ _ ihf ihg =>
      have hrule := depth_quotientRule_le f g f' g'
      simp only [depth]
      omega
  | variablePower _ => simp [depth]
  | @exponential a _ _ =>
      simp only [depth]
      omega
  | constantPower _ =>
      simp only [depth]
      omega
  | ignoredPower _ _ =>
      simp only [depth]
      omega
  | @call f g g' _ ih =>
      have hentry := depth_derivativeAt_le f g
      -- five levels above the argument are within the bound, as the argument has one at least
      have hg := g.depth_pos
      simp only [depth]
      omega

/-! ### The size of a derivative -/

theorem size_pos (e : Expr) : 0 < e.size := by
  cases e <;> simp [size]

theorem size_sumRule_le (f' g' : Expr) : (sumRule f' g').size ≤ f'.size + g'.size + 1 := by
  have hf := f'.size_pos
  unfold sumRule
  split_ifs with _ _ heq
  · omega
  · omega
  · subst heq
    simp only [size]
    omega
  · exact Nat.le_refl _

theorem size_differenceRule_le (f' g' : Expr) :
    (differenceRule f' g').size ≤ f'.size + g'.size + 1 := by
  unfold differenceRule
  split_ifs
  · omega
  · exact Nat.le_refl _

theorem size_productRule_le (f g f' g' : Expr) :
    (productRule f g f' g').size ≤ f'.size + g'.size + f.size + g.size + 3 := by
  unfold productRule
  split_ifs <;> simp only [size] <;> omega

theorem size_quotientRule (f g f' g' : Expr) :
    (quotientRule f g f' g').size = f'.size + g'.size + f.size + 2 * g.size + 6 := by
  simp only [quotientRule, square, size]
  omega

theorem size_derivativeAt_le (f : ElementaryFunction) (g : Expr) :
    (f.derivativeAt g).size ≤ g.size + 7 := by
  cases f <;>
    simp only [ElementaryFunction.derivativeAt, square, sqrtOneMinusSquare, size] <;> omega

/-- What the greediest rule for two operands adds to their derivatives, the rule for quotients, is
    paid for by one more node and one more level. -/
theorem size_binary_budget (op : BinaryOp) {f g f' g' : Expr}
    (hf : f'.size ≤ 3 * f.size * f.depth) (hg : g'.size ≤ 3 * g.size * g.depth) :
    f'.size + g'.size + f.size + 2 * g.size + 6 ≤
      3 * (binary op f g).size * (binary op f g).depth := by
  have hpos := f.depth_pos
  have hdepth : (binary op f g).depth = max f.depth g.depth + 1 := rfl
  have hsize : (binary op f g).size = f.size + g.size + 1 := rfl
  rw [hdepth, hsize]
  generalize hm : max f.depth g.depth = m
  have hf' : 3 * f.size * f.depth ≤ 3 * f.size * m := Nat.mul_le_mul_left _ (by omega)
  have hg' : 3 * g.size * g.depth ≤ 3 * g.size * m := Nat.mul_le_mul_left _ (by omega)
  calc
    f'.size + g'.size + f.size + 2 * g.size + 6
      ≤ 3 * f.size * m + 3 * g.size * m + 3 * f.size + 3 * g.size + 3 * m + 3 := by omega
    _ = 3 * (f.size + g.size + 1) * (m + 1) := by ring

theorem size_call_budget (f : ElementaryFunction) {g g' : Expr}
    (hg : g'.size ≤ 3 * g.size * g.depth) :
    g.size + 7 + g'.size + 1 ≤ 3 * (call f g).size * (call f g).depth := by
  have hdepth := g.depth_pos
  have hsize := g.size_pos
  calc
    g.size + 7 + g'.size + 1
      ≤ 3 * g.size * g.depth + 3 * g.size + 3 * g.depth + 3 := by omega
    _ = 3 * (g.size + 1) * (g.depth + 1) := by ring

/-- A leaf is always paid for. -/
theorem size_zero_budget (e : Expr) : zero.size ≤ 3 * e.size * e.depth :=
  Nat.mul_pos (Nat.mul_pos (by omega) e.size_pos) e.depth_pos

theorem size_exponential_budget (a x : Expr) :
    (product (call .ln a) (power a x)).size ≤ 3 * (power a x).size * (power a x).depth := by
  have hdepth : 2 ≤ (power a x).depth := by
    have hpos := a.depth_pos
    rw [depth]
    omega
  calc
    (product (call .ln a) (power a x)).size
      ≤ 3 * (power a x).size * 2 := by
        simp only [size]
        omega
    _ ≤ 3 * (power a x).size * (power a x).depth := Nat.mul_le_mul_left _ hdepth

/-- Every rule stays within the budget of its node. -/
theorem size_le_of_hasDerivative (h : HasDerivative settings e e') :
    e'.size ≤ 3 * e.size * e.depth := by
  induction h with
  | literal value => exact size_zero_budget _
  | «variable» => exact size_zero_budget _
  | constant _ => exact size_zero_budget _
  | @sum f g f' g' _ _ ihf ihg =>
      calc
        (sumRule f' g').size ≤ f'.size + g'.size + 1 := size_sumRule_le f' g'
        _ ≤ f'.size + g'.size + f.size + 2 * g.size + 6 := by omega
        _ ≤ 3 * (sum f g).size * (sum f g).depth := size_binary_budget .add ihf ihg
  | @difference f g f' g' _ _ ihf ihg =>
      calc
        (differenceRule f' g').size ≤ f'.size + g'.size + 1 := size_differenceRule_le f' g'
        _ ≤ f'.size + g'.size + f.size + 2 * g.size + 6 := by omega
        _ ≤ 3 * (difference f g).size * (difference f g).depth :=
          size_binary_budget .subtract ihf ihg
  | @product f g f' g' _ _ ihf ihg =>
      calc
        (productRule f g f' g').size ≤ f'.size + g'.size + f.size + g.size + 3 :=
          size_productRule_le f g f' g'
        _ ≤ f'.size + g'.size + f.size + 2 * g.size + 6 := by omega
        _ ≤ 3 * (product f g).size * (product f g).depth := size_binary_budget .multiply ihf ihg
  | @quotient f g f' g' _ _ ihf ihg =>
      rw [size_quotientRule]
      exact size_binary_budget .divide ihf ihg
  | variablePower _ => simp [size, depth]
  | exponential _ _ => exact size_exponential_budget _ _
  | constantPower _ => exact size_zero_budget _
  | ignoredPower _ _ => exact size_zero_budget _
  | @call f g g' _ ih =>
      calc
        (product (f.derivativeAt g) g').size = (f.derivativeAt g).size + g'.size + 1 := rfl
        _ ≤ g.size + 7 + g'.size + 1 := by
          have hentry := size_derivativeAt_le f g
          omega
        _ ≤ 3 * (call f g).size * (call f g).depth := size_call_budget f ih

end Expr

/-- The records of a differentiation end with the derivative, which is drawn there. -/
theorem records_differentiate {settings : Settings} {text : String} {e e' : Expr}
    (hvalid : settings.validate = .ok ())
    (hread : (Expr.read settings.maxDepth text).outcome = .ok e)
    (he' : (e.derivative settings).outcome = .ok e') :
    (differentiate settings text).records =
      (Expr.read settings.maxDepth text).records ++ .expression e ::
        (e.derivative settings).records ++ [.derivative e'] := by
  have hchecked : ((Logged.lift settings.validate).mapError Failure.plain).outcome = .ok () := by
    rw [hvalid]
    rfl
  have hmapped : ((e.derivative settings).mapError Failure.plain).outcome = .ok e' := by
    rw [Logged.outcome_mapError, he']
    rfl
  rw [differentiate, Logged.records_bind_of_ok hchecked, Logged.records_bind_of_ok hread,
    Logged.records_bind_of_ok (Logged.outcome_note _), Logged.records_bind_of_ok hmapped,
    Logged.records_bind_of_ok (Logged.outcome_note _)]
  simp

/-- A derivative is at most three times as deep as its expression, and at most three times as large
    for each of its levels. So the derivative of a text is within three times the limit for reading,
    and it is written and drawn without a further check. -/
theorem depth_and_size_of_derivative (settings : Settings) :
    (∀ e e' : Expr, (e.derivative settings).outcome = .ok e' →
      e'.depth ≤ 3 * e.depth ∧ e'.size ≤ 3 * e.size * e.depth) ∧
    (∀ text line, (differentiate settings text).outcome = .ok line →
      ∃ e e', (Expr.read settings.maxDepth text).outcome = .ok e ∧
        (e.derivative settings).outcome = .ok e' ∧ line = e'.render ∧
        e'.depth ≤ 3 * settings.maxDepth) ∧
    ∀ text e e', settings.validate = .ok () →
      (Expr.read settings.maxDepth text).outcome = .ok e →
      (e.derivative settings).outcome = .ok e' →
      (differentiate settings text).outcome = .ok e'.render ∧
        (differentiate settings text).records.getLast? = some (.derivative e') := by
  refine ⟨fun e e' he' => ?_, fun text line hline => ?_, fun text e e' hvalid hread he' => ?_⟩
  · have hderivative := hasDerivative_of_derivative he'
    exact ⟨Expr.depth_le_of_hasDerivative hderivative, Expr.size_le_of_hasDerivative hderivative⟩
  · obtain ⟨-, e, e', hread, he', hrender⟩ := outcome_differentiate_eq_ok_iff.mp hline
    have hdepth := Expr.depth_le_of_hasDerivative (hasDerivative_of_derivative he')
    have hlimit := (Expr.depth_and_sign_of_read hread).1
    exact ⟨e, e', hread, he', hrender, by omega⟩
  · refine ⟨outcome_differentiate_of_derivative hvalid hread he', ?_⟩
    rw [records_differentiate hvalid hread he', List.getLast?_concat]

/-- Settings that allow just the depth of `arcsin(x)`. -/
def shallowSettings : Settings :=
  { maxDepth := 2 }

/-- `1 / sqrt(1 - x ^ 2) * 1` -/
def arcsinDerivative : Expr :=
  .product (.quotient (.literal 1) (.sqrtOneMinusSquare (.identifier "x"))) (.literal 1)

theorem depth_and_size_of_arcsinDerivative :
    shallowSettings.validate = .ok () ∧
      (Expr.read shallowSettings.maxDepth "arcsin(x)").outcome =
        .ok (.call .arcsin (.identifier "x")) ∧
      ((Expr.call .arcsin (.identifier "x")).derivative shallowSettings).outcome =
        .ok arcsinDerivative ∧
      arcsinDerivative.depth = 6 ∧
      arcsinDerivative.depth ≤ 3 * (Expr.call .arcsin (.identifier "x")).depth ∧
      arcsinDerivative.size ≤
        3 * (Expr.call .arcsin (.identifier "x")).size *
          (Expr.call .arcsin (.identifier "x")).depth ∧
      (differentiate shallowSettings "arcsin(x)").outcome = .ok arcsinDerivative.render ∧
      (differentiate shallowSettings "arcsin(x)").records.getLast? =
        some (.derivative arcsinDerivative) ∧
      ∃ e e', (Expr.read shallowSettings.maxDepth "arcsin(x)").outcome = .ok e ∧
        (e.derivative shallowSettings).outcome = .ok e' ∧ arcsinDerivative.render = e'.render ∧
        e'.depth ≤ 3 * shallowSettings.maxDepth := by
  have hread : (Expr.read shallowSettings.maxDepth "arcsin(x)").outcome =
      .ok (.call .arcsin (.identifier "x")) := by decide
  have hderivative : ((Expr.call .arcsin (.identifier "x")).derivative shallowSettings).outcome =
      .ok arcsinDerivative := rfl
  obtain ⟨hbounds, hwithin, hunchecked⟩ := depth_and_size_of_derivative shallowSettings
  obtain ⟨hdepth, hsize⟩ := hbounds _ _ hderivative
  obtain ⟨hline, hdrawn⟩ := hunchecked _ _ _ rfl hread hderivative
  exact ⟨rfl, hread, hderivative, rfl, hdepth, hsize, hline, hdrawn, hwithin _ _ hline⟩

end SymbolicCalculus
