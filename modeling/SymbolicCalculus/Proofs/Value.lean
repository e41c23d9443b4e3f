/-
Module: SymbolicCalculus.Proofs.Value
Layer: Proofs
Purpose: What expressions mean. An interpretation in a field says which elements the identifiers
  are and which maps the power and the elementary functions are; integers and the other four
  operators mean themselves. Nothing is asked of the maps here: laws about them are hypotheses of
  the theorems that need them, stated about the nodes of one expression only, so the nodes of an
  expression are listed here as well.
Trusted boundary: human-reviewed spec
Main exports: Interpretation, Interpretation.operation, Expr.value, Expr.subtrees
-/
import Mathlib.Algebra.Field.Basic
import SymbolicCalculus.Derivative.Basic

namespace SymbolicCalculus

/-- What the parts of an expression stand for in a field. -/
structure Interpretation (K : Type*) where
  identifier : String → K
  power : K → K → K
  function : ElementaryFunction → K → K

namespace Interpretation

variable {K : Type*} [Field K]

/-- The map that an operator stands for. The quotient by zero is zero, as in any field here. -/
def operation (I : Interpretation K) : BinaryOp → K → K → K
  | .add => fun a b => a + b
  | .subtract => fun a b => a - b
  | .multiply => fun a b => a * b
  | .divide => fun a b => a / b
  | .power => I.power

end Interpretation

namespace Expr

variable {K : Type*} [Field K]

/-- The value of an expression under an interpretation. -/
def value (I : Interpretation K) : Expr → K
  | .literal n => (n.toInt : K)
  | .identifier name => I.identifier name
  | .binary op left right => I.operation op (left.value I) (right.value I)
  | .call f argument => I.function f (argument.value I)

variable (I : Interpretation K)

@[simp] theorem value_literal (n : Int64) : (literal n).value I = (n.toInt : K) := rfl

@[simp] theorem value_identifier (name : String) :
    (identifier name).value I = I.identifier name := rfl

@[simp] theorem value_sum (f g : Expr) : (sum f g).value I = f.value I + g.value I := rfl

@[simp] theorem value_difference (f g : Expr) :
    (difference f g).value I = f.value I - g.value I := rfl

@[simp] theorem value_product (f g : Expr) : (product f g).value I = f.value I * g.value I := rfl

@[simp] theorem value_quotient (f g : Expr) : (quotient f g).value I = f.value I / g.value I := rfl

@[simp] theorem value_power (f g : Expr) :
    (power f g).value I = I.power (f.value I) (g.value I) := rfl

@[simp] theorem value_call (f : ElementaryFunction) (g : Expr) :
    (call f g).value I = I.function f (g.value I) := rfl

@[simp] theorem value_zero : zero.value I = 0 := by
  simp [zero]

/-- An expression and all expressions inside it, each before its operands. -/
def subtrees : Expr → List Expr
  | .literal n => [.literal n]
  | .identifier name => [.identifier name]
  | .binary op left right => .binary op left right :: (left.subtrees ++ right.subtrees)
  | .call f argument => .call f argument :: argument.subtrees

theorem self_mem_subtrees (e : Expr) : e ∈ e.subtrees := by
  cases e <;> simp [subtrees]

/-- A subtree of a subtree is a subtree. -/
theorem mem_subtrees_trans {a b c : Expr} (hab : a ∈ b.subtrees) (hbc : b ∈ c.subtrees) :
    a ∈ c.subtrees := by
  induction c with
  | literal n =>
      rw [subtrees, List.mem_singleton] at hbc
      rwa [hbc] at hab
  | identifier name =>
      rw [subtrees, List.mem_singleton] at hbc
      rwa [hbc] at hab
  | binary op left right ihl ihr =>
      simp only [subtrees, List.mem_cons, List.mem_append] at hbc
      rcases hbc with rfl | hl | hr
      · exact hab
      · exact List.mem_cons_of_mem _ (List.mem_append_left _ (ihl hl))
      · exact List.mem_cons_of_mem _ (List.mem_append_right _ (ihr hr))
  | call f argument ih =>
      simp only [subtrees, List.mem_cons] at hbc
      rcases hbc with rfl | ha
      · exact hab
      · exact List.mem_cons_of_mem _ (ih ha)

/-- The operands of a subtree are subtrees. -/
theorem operands_mem_subtrees {op : BinaryOp} {left right e : Expr}
    (h : .binary op left right ∈ e.subtrees) : left ∈ e.subtrees ∧ right ∈ e.subtrees :=
  ⟨mem_subtrees_trans (by simp [subtrees, self_mem_subtrees]) h,
    mem_subtrees_trans (by simp [subtrees, self_mem_subtrees]) h⟩

/-- The argument of a call in an expression is a subtree. -/
theorem argument_mem_subtrees {f : ElementaryFunction} {argument e : Expr}
    (h : .call f argument ∈ e.subtrees) : argument ∈ e.subtrees :=
  mem_subtrees_trans (by simp [subtrees, self_mem_subtrees]) h

end Expr

end SymbolicCalculus
