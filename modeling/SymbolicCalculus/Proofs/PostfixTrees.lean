/-
Module: SymbolicCalculus.Proofs.PostfixTrees
Layer: Proofs
Purpose: Building a tree from tokens in postfix order is the inverse of writing one. The operands on
  the stack, written one after the other from the bottom, are the tokens taken so far: every step
  keeps this, so a tree that is built at the end has exactly the given tokens for its postfix order.
  A tree beyond the limit is refused for its depth and for nothing else.
Trusted boundary: none
Main exports: Operand.written, Operand.written_push, Operand.written_foldlM_push,
  Operand.foldlM_push_toPostfix_of_lt, Expr.toPostfix_of_ofPostfix
-/
import SymbolicCalculus.Expr.Postfix
import SymbolicCalculus.Logged

namespace SymbolicCalculus

namespace Operand

/-- The operands of a stack in postfix order, the bottom one first. -/
def written (stack : List Operand) : List Token :=
  stack.reverse.flatMap (·.expr.toPostfix)

@[simp] theorem written_nil : written [] = [] := rfl

@[simp] theorem written_cons (operand : Operand) (stack : List Operand) :
    written (operand :: stack) = written stack ++ operand.expr.toPostfix := by
  simp [written]

/-- An operand takes up its operands, and its token comes after them. -/
theorem written_build {stack rest : List Operand} {token : Token} {operand : Operand}
    (h : build stack token = .ok (operand, rest)) :
    written (operand :: rest) = written stack ++ [token] := by
  cases token with
  | literal value =>
      cases h
      simp [ofExpr, Expr.toPostfix]
  | identifier name =>
      cases h
      simp [ofExpr, Expr.toPostfix]
  | function f =>
      cases stack with
      | nil => cases h
      | cons argument below =>
          cases h
          simp [call, Expr.toPostfix]
  | operator op =>
      cases stack with
      | nil => cases h
      | cons right below =>
          cases below with
          | nil => cases h
          | cons left below =>
              cases h
              simp [binary, Expr.toPostfix]
  | openParen => cases h
  | closeParen => cases h

/-- A step writes its token behind the others, and every operand stays within the limit. -/
theorem written_push {limit : Nat} {stack stack' : List Operand} {token : Token}
    (h : push limit stack token = .ok stack') :
    written stack' = written stack ++ [token] ∧ ∀ top ∈ stack'.head?, top.depth ≤ limit := by
  rcases except_bind_eq_ok_iff.mp h with ⟨⟨operand, rest⟩, hbuild, h⟩
  dsimp only at h
  split at h
  · rename_i hdepth
    cases h
    refine ⟨written_build hbuild, ?_⟩
    intro top htop
    cases htop
    exact hdepth
  · cases h

/-- A run writes its tokens behind the others. If there were any, the last operand is within the
    limit. -/
theorem written_foldlM_push {limit : Nat} {tokens : List Token} {stack stack' : List Operand}
    (h : tokens.foldlM (push limit) stack = .ok stack') :
    written stack' = written stack ++ tokens ∧
      ((∀ top ∈ stack.head?, top.depth ≤ limit) → ∀ top ∈ stack'.head?, top.depth ≤ limit) := by
  induction tokens generalizing stack with
  | nil =>
      cases h
      simp
  | cons token rest ih =>
      rw [List.foldlM_cons] at h
      rcases except_bind_eq_ok_iff.mp h with ⟨middle, hpush, hrest⟩
      rcases written_push hpush with ⟨hwritten, hdepth⟩
      rcases ih hrest with ⟨hwritten', hdepth'⟩
      refine ⟨?_, fun _ => hdepth' hdepth⟩
      rw [hwritten', hwritten, List.append_assoc, List.singleton_append]

/-- Beyond the limit, the postfix order of an expression is refused for its depth: either an operand
    is too deep already, or all are built and the expression itself is. -/
theorem foldlM_push_toPostfix_of_lt {limit : Nat} {e : Expr} (h : limit < e.depth)
    (stack : List Operand) :
    e.toPostfix.foldlM (push limit) stack = .error (.nestingTooDeep limit) := by
  induction e generalizing stack with
  | literal value =>
      simp [Expr.toPostfix, push, build, Nat.not_le.mpr h]
  | identifier name =>
      simp [Expr.toPostfix, push, build, Nat.not_le.mpr h]
  | binary op left right ihl ihr =>
      rw [Expr.toPostfix, List.foldlM_append, List.foldlM_append]
      by_cases hleft : left.depth ≤ limit
      · rw [foldlM_push_toPostfix hleft, except_ok_bind]
        by_cases hright : right.depth ≤ limit
        · rw [foldlM_push_toPostfix hright, except_ok_bind]
          simp [push, build, Nat.not_le.mpr h]
        · rw [ihr (Nat.lt_of_not_le hright), except_error_bind]
      · rw [ihl (Nat.lt_of_not_le hleft), except_error_bind, except_error_bind]
  | call f argument ih =>
      rw [Expr.toPostfix, List.foldlM_append]
      by_cases hargument : argument.depth ≤ limit
      · rw [foldlM_push_toPostfix hargument, except_ok_bind]
        simp [push, build, Nat.not_le.mpr h]
      · rw [ih (Nat.lt_of_not_le hargument), except_error_bind]

end Operand

namespace Expr

/-- Beyond the limit the postfix order of an expression is refused for its depth. -/
theorem ofPostfix_toPostfix_of_lt {limit : Nat} {e : Expr} (h : limit < e.depth) :
    ofPostfix limit e.toPostfix = .error (.nestingTooDeep limit) := by
  rw [ofPostfix, Operand.foldlM_push_toPostfix_of_lt h, except_error_bind]

/-- A tree is built from its own postfix order only, and only within the limit. -/
theorem toPostfix_of_ofPostfix {limit : Nat} {tokens : List Token} {e : Expr}
    (h : ofPostfix limit tokens = .ok e) : tokens = e.toPostfix ∧ e.depth ≤ limit := by
  rcases except_bind_eq_ok_iff.mp h with ⟨stack, hrun, hfinish⟩
  rcases Operand.written_foldlM_push hrun with ⟨hwritten, hdepth⟩
  match stack, hfinish with
  | [], hfinish => cases hfinish
  | [operand], hfinish =>
      cases hfinish
      refine ⟨by simpa using hwritten.symm, ?_⟩
      rw [← operand.depth_eq]
      exact hdepth (by simp) operand rfl
  | _ :: _ :: _, hfinish => cases hfinish

end Expr

end SymbolicCalculus
