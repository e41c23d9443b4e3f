/-
Module: SymbolicCalculus.Proofs.VanishingDerivatives
Layer: Proofs
Purpose: When a derivative is folded away to the integer zero, told from the expression alone. The
  rules for sums, differences and products give zero only for operands that did, and the others
  never do, so what decides are the visited nodes: the variable, a quotient, a call and a power with
  a rule each leave a term, whatever stands around them. Without such a node nothing is left. What
  stands inside a power is not looked at, except that the power as a whole has a rule or none.
Trusted boundary: human-reviewed spec
Main exports: LeavesTerm, Expr.sumRule_eq_zero_iff, Expr.differenceRule_eq_zero_iff,
  Expr.productRule_eq_zero_iff, Expr.eq_zero_iff_of_hasDerivative, derivative_vanishes_iff
-/
import Mathlib.Tactic.SplitIfs
import SymbolicCalculus.Proofs.DerivativeRelation
import SymbolicCalculus.Proofs.FirstOffences

namespace SymbolicCalculus

/-- The nodes that leave a term when differentiating by a variable, unless a power stands above. -/
inductive LeavesTerm (name : String) : Expr → Prop where
  | variable : LeavesTerm name (.identifier name)
  | quotient (f g : Expr) : LeavesTerm name (.quotient f g)
  | call (f : ElementaryFunction) (g : Expr) : LeavesTerm name (.call f g)
  | power {e : Expr} : HasPowerRule name e → LeavesTerm name e

variable {name : String} {settings : Settings} {level : Nat} {e e' : Expr}

/-- A power with a rule mentions the variable. -/
theorem HasPowerRule.mentions (h : HasPowerRule name e) : e.mentions name = true := by
  cases h with
  | literalExponent n => simp [Expr.mentions]
  | literalBase n => simp [Expr.mentions]
  | identifierBase hne => simp [Expr.mentions]

/-- A power leaves a term only by its rule. -/
theorem leavesTerm_power_iff {base exponent : Expr} :
    LeavesTerm name (.power base exponent) ↔ HasPowerRule name (.power base exponent) := by
  constructor
  · intro h
    cases h with
    | power h => exact h
  · exact .power

theorem not_leavesTerm_literal (value : Int64) : ¬ LeavesTerm name (.literal value) := by
  rintro (_ | _ | _ | ⟨⟨⟩⟩)

theorem leavesTerm_identifier_iff {other : String} :
    LeavesTerm name (.identifier other) ↔ other = name := by
  constructor
  · intro h
    cases h with
    | «variable» => rfl
    | power h => cases h
  · rintro rfl
    exact .variable

/-- An operation that is neither a quotient nor a power leaves no term by itself. -/
theorem not_leavesTerm_binary {op : BinaryOp} (hdivide : op ≠ .divide) (hpower : op ≠ .power)
    (f g : Expr) : ¬ LeavesTerm name (.binary op f g) := by
  intro h
  cases h with
  | quotient => exact hdivide rfl
  | power h => cases h <;> exact hpower rfl

namespace Expr

/-! ### The rules that fold -/

theorem sumRule_eq_zero_iff {f' g' : Expr} : sumRule f' g' = zero ↔ f' = zero ∧ g' = zero := by
  unfold sumRule
  split_ifs with hf hg heq
  · exact (and_iff_right hf).symm
  · simp [hf]
  · simp [hf]
  · simp [hf]

theorem differenceRule_eq_zero_iff {f' g' : Expr} :
    differenceRule f' g' = zero ↔ f' = zero ∧ g' = zero := by
  unfold differenceRule
  split_ifs with hg
  · exact (and_iff_left hg).symm
  · simp [hg]

theorem productRule_eq_zero_iff {f g f' g' : Expr} :
    productRule f g f' g' = zero ↔ f' = zero ∧ g' = zero := by
  unfold productRule
  split_ifs with hf hg hg
  · simp [hf, hg]
  · simp [hg]
  · simp [hf]
  · simp [hf]

/-! ### Expressions without a term -/

/-- An operation leaves no term if neither it nor an operand does. -/
theorem forall_visits_binary {op : BinaryOp} (hdivide : op ≠ .divide) (hpower : op ≠ .power)
    {f g : Expr} :
    (∀ visit ∈ (binary op f g).visits level, ¬ LeavesTerm name visit.node) ↔
      (∀ visit ∈ f.visits (level + 1), ¬ LeavesTerm name visit.node) ∧
        ∀ visit ∈ g.visits (level + 1), ¬ LeavesTerm name visit.node := by
  rw [visits_binary hpower, List.forall_mem_cons, List.forall_mem_append]
  exact and_iff_right (not_leavesTerm_binary hdivide hpower f g)

theorem binary_ne_zero (op : BinaryOp) (f g : Expr) : binary op f g ≠ zero := by
  simp [zero]

/-- Where a visited node leaves a term, the derivative is not zero. -/
theorem eq_zero_iff_of_leavesTerm (hzero : e' ≠ zero) (h : LeavesTerm name e) :
    e' = zero ↔ ∀ visit ∈ e.visits level, ¬ LeavesTerm name visit.node := by
  have hroot : ⟨level, e⟩ ∈ e.visits level := by
    rw [visits.eq_def]
    exact List.mem_cons_self
  exact iff_of_false hzero fun hall => hall _ hroot h

/-- A derivative is zero exactly when no visited node leaves a term. -/
theorem eq_zero_iff_of_hasDerivative (h : HasDerivative settings e e') :
    e' = zero ↔
      ∀ visit ∈ e.visits level, ¬ LeavesTerm settings.withRespectTo visit.node := by
  induction h generalizing level with
  | literal value => simp [visits, not_leavesTerm_literal]
  | «variable» => exact eq_zero_iff_of_leavesTerm (by simp [zero]) .variable
  | constant hname => simp [visits, leavesTerm_identifier_iff, hname]
  | sum _ _ ihf ihg =>
      rw [sumRule_eq_zero_iff, forall_visits_binary (by simp) (by simp), ← ihf, ← ihg]
  | difference _ _ ihf ihg =>
      rw [differenceRule_eq_zero_iff, forall_visits_binary (by simp) (by simp), ← ihf, ← ihg]
  | product _ _ ihf ihg =>
      rw [productRule_eq_zero_iff, forall_visits_binary (by simp) (by simp), ← ihf, ← ihg]
  | quotient _ _ _ _ => exact eq_zero_iff_of_leavesTerm (binary_ne_zero _ _ _) (.quotient _ _)
  | variablePower _ =>
      exact eq_zero_iff_of_leavesTerm (binary_ne_zero _ _ _) (.power (.literalExponent _))
  | exponential hatom hne =>
      have hrule := hasPowerRule_iff.mpr
        (.inr (PowerShape.of_eq_constantToVariable_iff.mpr ⟨hatom, hne, rfl⟩))
      exact eq_zero_iff_of_leavesTerm (binary_ne_zero _ _ _) (.power hrule)
  | constantPower hmentions =>
      have hrule : ¬ HasPowerRule settings.withRespectTo _ := fun hrule =>
        absurd hrule.mentions (by rw [hmentions]; exact Bool.false_ne_true)
      simp [visits, leavesTerm_power_iff, hrule]
  | ignoredPower _ hshape =>
      have hrule := (PowerShape.of_eq_unsupported_iff.mp hshape).2
      simp [visits, leavesTerm_power_iff, hrule]
  | call _ _ => exact eq_zero_iff_of_leavesTerm (binary_ne_zero _ _ _) (.call _ _)

/-- What holds of every visited node holds of it as differentiation comes to it. -/
theorem forall_visited_iff {p : Visit → Prop} :
    (∀ o ∈ e.visited, p o.toVisit) ↔ ∀ visit ∈ e.visits 0, p visit := by
  rw [← map_toVisit_visited, List.forall_mem_map]

/-- No visited node mentions a name that the expression does not. -/
theorem mentions_of_mem_visits (h : e.mentions name = false) {visit : Visit}
    (hvisit : visit ∈ e.visits level) : visit.node.mentions name = false :=
  of_mem_visits (motive := fun _ node => node.mentions name = false)
    (fun hnode => Bool.or_eq_false_iff.mp hnode) (fun hnode => hnode) h hvisit

/-- Within the limit, an expression without the variable has a derivative. -/
theorem exists_derivative_of_mentions (h : e.mentions settings.withRespectTo = false)
    (hlevel : ∀ visit ∈ e.visits 0, visit.level ≤ settings.maxDepth) :
    ∃ e', (e.derivative settings).outcome = .ok e' := by
  cases houtcome : (e.derivative settings).outcome with
  | ok e' => exact ⟨e', rfl⟩
  | error fault =>
      obtain ⟨visit, hvisit, hoffence⟩ := exists_offence_of_derivative houtcome
      have hmentions := mentions_of_mem_visits h hvisit
      rw [Visit.offence, if_neg (Nat.not_lt.mpr (hlevel visit hvisit))] at hoffence
      split at hoffence
      · rename_i base exponent hnode
        rw [hnode] at hmentions
        rw [powerOffence, PowerShape.of_eq_constant_iff.mpr hmentions] at hoffence
        cases hoffence
      all_goals cases hoffence

/-- Without the variable only a quotient or a call leaves a term. -/
theorem not_leavesTerm_of_mentions (h : e.mentions name = false)
    (hquotient : ∀ f g, e ≠ .quotient f g) (hcall : ∀ f g, e ≠ .call f g) :
    ¬ LeavesTerm name e := by
  intro hterm
  cases hterm with
  | «variable» => simp [mentions] at h
  | quotient f g => exact hquotient f g rfl
  | call f g => exact hcall f g rfl
  | power hrule => exact absurd hrule.mentions (by simp [h])

end Expr

/-- A derivative is folded away to zero exactly when no node outside of powers is the variable, a
    quotient or a call, and no outermost power has a rule. In particular nothing is left of an
    expression without the variable that is built of leaves and powers by sums, differences and
    products, as deep as the limit allows. -/
theorem derivative_vanishes_iff (settings : Settings) (e : Expr) :
    (∀ e', (e.derivative settings).outcome = .ok e' →
      (e' = .zero ↔ ∀ o ∈ e.visited, ¬ LeavesTerm settings.withRespectTo o.node)) ∧
    (e.mentions settings.withRespectTo = false →
      (∀ o ∈ e.visited, (∀ f g, o.node ≠ .quotient f g) ∧ ∀ f g, o.node ≠ .call f g) →
      (∀ o ∈ e.visited, o.level ≤ settings.maxDepth) →
      (e.derivative settings).outcome = .ok .zero) := by
  have hzero : ∀ e', (e.derivative settings).outcome = .ok e' →
      (e' = .zero ↔ ∀ o ∈ e.visited, ¬ LeavesTerm settings.withRespectTo o.node) := by
    intro e' houtcome
    rw [Expr.eq_zero_iff_of_hasDerivative (hasDerivative_of_derivative houtcome)]
    exact Expr.forall_visited_iff.symm
  refine ⟨hzero, fun hmentions hbuilt hlevel => ?_⟩
  obtain ⟨e', houtcome⟩ :=
    Expr.exists_derivative_of_mentions hmentions (Expr.forall_visited_iff.mp hlevel)
  have hnodes : ∀ o ∈ e.visited, o.node.mentions settings.withRespectTo = false :=
    Expr.forall_visited_iff.mpr fun visit hvisit => Expr.mentions_of_mem_visits hmentions hvisit
  have hvanishes : e' = .zero := (hzero e' houtcome).mpr fun o ho =>
    Expr.not_leavesTerm_of_mentions (hnodes o ho) (hbuilt o ho).1 (hbuilt o ho).2
  rw [houtcome, hvanishes]

/-- `3 * (a - 2 ^ a) + (x / x) ^ x`: the quotient and the variable stand inside a power only. -/
def hiddenVariable : Expr :=
  .sum
    (.product (.literal 3)
      (.difference (.identifier "a") (.power (.literal 2) (.identifier "a"))))
    (.power (.quotient (.identifier "x") (.identifier "x")) (.identifier "x"))

/-- `3 * (a - ln(2) ^ a)` -/
def withoutVariable : Expr :=
  .product (.literal 3)
    (.difference (.identifier "a") (.power (.call .ln (.literal 2)) (.identifier "a")))

theorem derivative_vanishes_hiddenVariable :
    (hiddenVariable.derivative {}).outcome = .ok .zero ∧
      (∀ o ∈ hiddenVariable.visited, ¬ LeavesTerm "x" o.node) ∧
      withoutVariable.mentions "x" = false ∧
      (∀ o ∈ withoutVariable.visited, (∀ f g, o.node ≠ .quotient f g) ∧
        ∀ f g, o.node ≠ .call f g) ∧
      (∀ o ∈ withoutVariable.visited, o.level ≤ 2) ∧
      (withoutVariable.derivative { maxDepth := 2 }).outcome = .ok .zero := by
  have hhidden : (hiddenVariable.derivative {}).outcome = .ok .zero := rfl
  have hmentions : withoutVariable.mentions "x" = false := by decide
  have hbuilt : ∀ o ∈ withoutVariable.visited, (∀ f g, o.node ≠ .quotient f g) ∧
      ∀ f g, o.node ≠ .call f g := by
    have hvisited : withoutVariable.visited.map Occurrence.node = [withoutVariable, .literal 3,
        .difference (.identifier "a") (.power (.call .ln (.literal 2)) (.identifier "a")),
        .identifier "a", .power (.call .ln (.literal 2)) (.identifier "a")] := rfl
    rw [← List.forall_mem_map
      (P := fun node : Expr => (∀ f g, node ≠ .quotient f g) ∧ ∀ f g, node ≠ .call f g), hvisited]
    simp [withoutVariable]
  have hlevel : ∀ o ∈ withoutVariable.visited, o.level ≤ 2 := by decide
  exact ⟨hhidden, ((derivative_vanishes_iff {} hiddenVariable).1 _ hhidden).mp rfl, hmentions,
    hbuilt, hlevel,
    (derivative_vanishes_iff { maxDepth := 2 } withoutVariable).2 hmentions hbuilt hlevel⟩

end SymbolicCalculus
