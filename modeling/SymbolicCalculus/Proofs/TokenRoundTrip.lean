/-
Module: SymbolicCalculus.Proofs.TokenRoundTrip
Layer: Proofs
Purpose: Reading back the tokens of an expression. They stand for the expression grouped to the
  left, so that is what is read, and the only thing that can stand in the way is its depth: names
  and literals are arbitrary here, since tokens are not cut anew. Grouping to the left can make a
  tree deeper or flatter.
Trusted boundary: none
Main exports: Expr.regroup_binary, outcome_parse_toInfix
-/
import SymbolicCalculus.Proofs.GrammarAgreement
import SymbolicCalculus.Proofs.Regrouping

namespace SymbolicCalculus

/-- Only sums and products regroup. -/
theorem BinaryOp.isAssociative_iff {op : BinaryOp} :
    op.isAssociative = true ↔ op = .add ∨ op = .multiply := by
  cases op <;> simp [isAssociative]

namespace Expr

/-- Regrouping takes an operation apart only at a sum or a product. -/
theorem regroup_binary (op : BinaryOp) (left right : Expr) :
    (binary op left right).regroup =
      if op = .add ∨ op = .multiply then graft op left.regroup right.regroup
      else .binary op left.regroup right.regroup := by
  rw [regroup, join]
  simp only [BinaryOp.isAssociative_iff]

end Expr

/-- The infix tokens of an expression are read as the expression regrouped, or refused when that is
    deeper than the limit, and refused for nothing else. Regrouping grafts the right operands of
    sums and products and leaves all others where they are. -/
theorem outcome_parse_toInfix (e : Expr) (limit : Nat) :
    (Expr.parse limit e.toInfix).outcome =
        (if e.regroup.depth ≤ limit then .ok e.regroup else .error (.nestingTooDeep limit)) ∧
      ∀ op left right, (Expr.binary op left right).regroup =
        if op = .add ∨ op = .multiply then Expr.graft op left.regroup right.regroup
        else .binary op left.regroup right.regroup := by
  refine ⟨?_, Expr.regroup_binary⟩
  have hderives : Phrase.sum.Derives e.toInfix e.regroup := e.derives_toInfix
  split
  · rename_i hdepth
    exact Expr.outcome_parse_of_derives hderives hdepth
  · rename_i hdepth
    exact Expr.outcome_parse_of_derives_of_lt hderives (Nat.lt_of_not_le hdepth)

/-- `(a + b) + (c + d)`, which has three levels and four when it is grouped to the left. -/
def balancedSum : Expr :=
  .sum (.sum (.identifier "a") (.identifier "b")) (.sum (.identifier "c") (.identifier "d"))

example : balancedSum.depth = 3 ∧
    (Expr.parse 3 balancedSum.toInfix).outcome = .error (.nestingTooDeep 3) := ⟨rfl, rfl⟩

end SymbolicCalculus
