/-
Module: SymbolicCalculus.Proofs.Acceptance
Layer: Proofs
Purpose: Which accepted lists are well formed. The reader checks parentheses and counts operands,
  and never asks whether a token stands where its kind may stand, so it takes `x y +` for `x + y`.
  What it does check is enough for the rest: when operands and operators alternate, an accepted list
  is well formed. A run is followed from its end. The tokens that are left always close the
  parentheses that are open, and what stands between two of them completes a well-formed list.
Trusted boundary: none
Main exports: Completes, Closes, Postfix.closes_of_run, IsInfix.derives_of_parse,
  isInfix_iff_alternate_of_parse, parse_accepts_trailing_operator
-/
import SymbolicCalculus.Proofs.GrammarAgreement

namespace SymbolicCalculus

/-- The tokens finish a well-formed list. Where an operand is due they are such a list themselves;
    behind an operand nothing has to come, or else an operator and such a list. -/
inductive Completes : (operandDue : Bool) → List Token → Prop where
  | operand {tokens : List Token} : IsInfix tokens → Completes true tokens
  | done : Completes false []
  | operator (op : BinaryOp) {tokens : List Token} : IsInfix tokens →
      Completes false (.operator op :: tokens)

/-- The tokens finish a well-formed list inside so many open parentheses: they complete what the
    innermost holds, close it, and go on behind it. -/
inductive Closes : (opened : Nat) → (operandDue : Bool) → List Token → Prop where
  | done {operandDue : Bool} {tokens : List Token} : Completes operandDue tokens →
      Closes 0 operandDue tokens
  | close {opened : Nat} {operandDue : Bool} {inner rest : List Token} :
      Completes operandDue inner → Closes opened false rest →
      Closes (opened + 1) operandDue (inner ++ .closeParen :: rest)

/-! ### A token more at the front -/

/-- What may follow an operand makes a well-formed list with it. -/
theorem IsInfix.append_of_completes {operand rest : List Token} (h : IsInfix operand)
    (hrest : Completes false rest) : IsInfix (operand ++ rest) := by
  cases hrest with
  | done => rwa [List.append_nil]
  | operator op htokens => exact .operation op h htokens

/-- A group becomes a call when a function is put before it. The group may be the first operand of a
    longer list. -/
theorem IsInfix.function_cons (f : ElementaryFunction) {tokens rest : List Token}
    (h : IsInfix tokens) (htokens : tokens = .openParen :: rest) :
    IsInfix (.function f :: tokens) := by
  induction h generalizing rest with
  | literal value => cases htokens
  | identifier name => cases htokens
  | @operation op left right hl hr ihl _ =>
      rcases hl.exists_cons with ⟨token, tail, rfl, -⟩
      rcases List.cons.inj htokens with ⟨rfl, -⟩
      have hcall := ihl rfl
      exact .operation op hcall hr
  | group h _ => exact .call f h
  | call g _ _ => cases htokens

namespace Closes

variable {opened : Nat} {rest : List Token}

theorem operand_append {operand : List Token} (hoperand : IsInfix operand)
    (h : Closes opened false rest) : Closes opened true (operand ++ rest) := by
  cases h with
  | done hrest => exact .done (.operand (hoperand.append_of_completes hrest))
  | close hinner hrest =>
      rw [← List.append_assoc]
      exact .close (.operand (hoperand.append_of_completes hinner)) hrest

theorem operator_cons (op : BinaryOp) (h : Closes opened true rest) :
    Closes opened false (.operator op :: rest) := by
  cases h with
  | done hrest =>
      cases hrest with
      | operand hrest => exact .done (.operator op hrest)
  | close hinner hrest =>
      cases hinner with
      | operand hinner => exact .close (.operator op hinner) hrest

theorem openParen_cons (h : Closes (opened + 1) true rest) :
    Closes opened true (.openParen :: rest) := by
  cases h with
  | @close _ _ inner rest hinner hrest =>
      cases hinner with
      | operand hinner =>
          have hgroup := operand_append (.group hinner) hrest
          rwa [List.cons_append, List.append_assoc] at hgroup

theorem function_cons (f : ElementaryFunction) (h : Closes opened true (.openParen :: rest)) :
    Closes opened true (.function f :: .openParen :: rest) := by
  generalize htokens : Token.openParen :: rest = tokens at h
  cases h with
  | done hrest =>
      cases hrest with
      | operand hrest => exact .done (.operand (hrest.function_cons f htokens.symm))
  | close hinner hrest =>
      cases hinner with
      | operand hinner =>
          rcases hinner.exists_cons with ⟨token, tail, rfl, -⟩
          rcases List.cons.inj htokens with ⟨rfl, -⟩
          exact .close (.operand (hinner.function_cons f rfl)) hrest

end Closes

/-! ### Following a run from its end -/

namespace Postfix

/-- Operators that leave the stack are no parentheses. -/
theorem count_dropWhile_operators {p : Pending → Bool} (hp : p .openParen = false)
    (stack : List Pending) :
    (stack.dropWhile p).count .openParen = stack.count .openParen := by
  induction stack with
  | nil => rfl
  | cons top rest ih =>
      rw [List.dropWhile_cons]
      split
      · rename_i htop
        have hne : top ≠ .openParen := by
          intro heq
          rw [heq, hp] at htop
          cases htop
        rw [ih, List.count_cons_of_ne hne]
      · rfl

/-- A closing parenthesis takes one opening parenthesis away. -/
theorem count_of_closeGroup {stack left : List Pending} {emitted : List Token}
    (h : closeGroup stack = .ok (emitted, left)) :
    stack.count .openParen = left.count .openParen + 1 := by
  rcases closeGroup_eq_ok_iff.mp h with ⟨rest, hrest, -, rfl⟩
  have hcall : (closeCall rest).2.count .openParen = rest.count .openParen := by
    unfold closeCall
    split
    · simp
    · rfl
  rw [hcall, ← List.count_cons_self, ← hrest, count_dropWhile_operators rfl]

/-- Tokens that a run accepts, and that alternate, close the parentheses that wait on the stack. -/
theorem closes_of_run {limit : Nat} {stack : List Pending} {tokens output : List Token}
    {operandDue : Bool} (hrun : run limit stack tokens = .ok output)
    (halternate : Token.alternate operandDue tokens = true) :
    Closes (stack.count .openParen) operandDue tokens := by
  induction tokens generalizing stack output operandDue with
  | nil =>
      have hdue : operandDue = false := by simpa [Token.alternate] using halternate
      have hclosed : stack.count .openParen = 0 := by
        have hall := (finish_eq_ok_iff.mp hrun).1
        apply List.count_eq_zero_of_not_mem
        intro hmem
        exact absurd (hall _ hmem) (by simp [Pending.isOperator])
      rw [hdue, hclosed]
      exact .done .done
  | cons token rest ih =>
      rcases run_cons_eq_ok_iff.mp hrun with ⟨emitted, left, later, hstep, hlater, -⟩
      rcases Token.alternate_cons.mp halternate with ⟨hstarts, halternate⟩
      have hcloses := ih hlater halternate
      cases token with
      | literal value =>
          cases hstep
          cases hstarts
          exact Closes.operand_append (.literal value) hcloses
      | identifier name =>
          cases hstep
          cases hstarts
          exact Closes.operand_append (.identifier name) hcloses
      | function f =>
          rcases step_function_eq_ok_iff.mp hstep with ⟨hcheck, rfl, rfl⟩
          rcases checkCall_eq_ok_iff.mp hcheck with ⟨argument, rfl, -⟩
          cases hstarts
          rw [List.count_cons_of_ne (by simp)] at hcloses
          exact hcloses.function_cons f
      | operator op =>
          cases hstep
          cases hstarts
          rw [List.count_cons_of_ne (by simp), count_dropWhile_operators rfl] at hcloses
          exact hcloses.operator_cons op
      | openParen =>
          cases hstep
          cases hstarts
          rw [List.count_cons_self] at hcloses
          exact hcloses.openParen_cons
      | closeParen =>
          cases hstarts
          rw [count_of_closeGroup hstep]
          have hclose : Closes (_ + 1) false ([] ++ .closeParen :: rest) := .close .done hcloses
          exact hclose

/-- Alternating tokens that are converted are well formed. -/
theorem isInfix_of_ofInfix {limit : Nat} {tokens output : List Token}
    (h : ofInfix limit tokens = .ok output) (halternate : Token.alternate true tokens = true) :
    IsInfix tokens := by
  cases closes_of_run h halternate with
  | done hcompletes =>
      cases hcompletes with
      | operand hformed => exact hformed

end Postfix

/-- A well-formed list that is accepted is read as the precedence grammar says. -/
theorem IsInfix.derives_of_parse {limit : Nat} {tokens : List Token} {e : Expr}
    (hformed : IsInfix tokens) (h : (Expr.parse limit tokens).outcome = .ok e) :
    Phrase.sum.Derives tokens e := by
  rcases hformed.exists_derives with ⟨e', hderives⟩
  rcases (Expr.outcome_parse_eq_ok_iff hderives).mp h with ⟨-, rfl⟩
  exact hderives

/-- An accepted list is well formed exactly when its operands and operators alternate, and then it
    is read as the precedence grammar says. Nothing else that the grammar asks for is left
    unchecked. -/
theorem isInfix_iff_alternate_of_parse {limit : Nat} {tokens : List Token} {e : Expr}
    (h : (Expr.parse limit tokens).outcome = .ok e) :
    (IsInfix tokens ↔ Token.alternate true tokens = true) ∧
      (IsInfix tokens → Phrase.sum.Derives tokens e) := by
  constructor
  · constructor
    · exact IsInfix.alternate
    · rw [Expr.outcome_parse] at h
      rcases except_bind_eq_ok_iff.mp h with ⟨output, houtput, -⟩
      exact Postfix.isInfix_of_ofInfix houtput
  · intro hformed
    exact hformed.derives_of_parse h

/-- `x + ln((1))` -/
def logarithmTokens : List Token :=
  [.identifier "x", .operator .add, .function .ln, .openParen, .openParen, .literal 1, .closeParen,
    .closeParen]

theorem isInfix_of_parse_logarithm :
    (Expr.parse 3 logarithmTokens).outcome =
        .ok (.sum (.identifier "x") (.call .ln (.literal 1))) ∧
      IsInfix logarithmTokens ∧
      Phrase.sum.Derives logarithmTokens (.sum (.identifier "x") (.call .ln (.literal 1))) := by
  have hparse : (Expr.parse 3 logarithmTokens).outcome =
      .ok (.sum (.identifier "x") (.call .ln (.literal 1))) := rfl
  rcases isInfix_iff_alternate_of_parse hparse with ⟨hiff, hderives⟩
  have hformed := hiff.mpr (by decide)
  exact ⟨hparse, hformed, hderives hformed⟩

/-- `x y +` -/
def trailingOperatorTokens : List Token :=
  [.identifier "x", .identifier "y", .operator .add]

/-- A list that is not well formed is accepted: its operator stands behind both operands. -/
theorem parse_accepts_trailing_operator :
    (Expr.parse 512 trailingOperatorTokens).outcome =
        .ok (.sum (.identifier "x") (.identifier "y")) ∧
      ¬ IsInfix trailingOperatorTokens := by
  constructor
  · rfl
  · intro h
    exact absurd h.alternate (by decide)

end SymbolicCalculus
