/-
Module: SymbolicCalculus.Proofs.RenderingEquality
Layer: Proofs
Purpose: Which expressions are written alike. A line determines its tokens and these determine the
  regrouped expression, since reading them gives no other; and a regrouped expression is written
  with the very tokens of the first, because a grafted chain needs just the parentheses that its
  parts need. So expressions are written alike exactly when they differ in grouping alone, and what
  is read back from an expression is written as it was. Negative literals, which can not be read
  back, are no exception to the first.
Trusted boundary: none
Main exports: Phrase.Derives.unique, Expr.toInfix_regroup, Expr.toInfix_eq_toInfix_iff,
  render_eq_render_iff
-/
import SymbolicCalculus.Proofs.LineDecoding

namespace SymbolicCalculus

/-- A list of tokens stands for one expression at most. -/
theorem Phrase.Derives.unique {tokens : List Token} {e e' : Expr}
    (h : Phrase.sum.Derives tokens e) (h' : Phrase.sum.Derives tokens e') : e' = e := by
  have hparse : (Expr.parse e'.depth tokens).outcome = .ok e' :=
    Expr.outcome_parse_of_derives h' (Nat.le_refl _)
  exact ((Expr.outcome_parse_eq_ok_iff h).mp hparse).2

namespace Expr

/-! ### The tokens of a regrouped expression -/

/-- A left operand of the same precedence is written without parentheses. -/
theorem leftNeedsParens_of_eq {op : BinaryOp} {e : Expr}
    (h : e.phrase.precedence = op.precedence) : leftNeedsParens op e = false := by
  rw [leftNeedsParens, ← Bool.not_eq_true, isLooserThan_iff]
  exact Nat.not_lt.mpr (Nat.le_of_eq h.symm)

/-- A graft is written with the tokens of the node that it stands for. -/
theorem toInfix_graft {op : BinaryOp} (hassoc : op.isAssociative = true) (left right : Expr) :
    (graft op left right).toInfix = (binary op left right).toInfix := by
  induction right with
  | literal value => rfl
  | identifier name => rfl
  | call f argument _ => rfl
  | binary inner a b iha _ =>
      by_cases hprecedence : inner.precedence = op.precedence
      · have hgraft : leftNeedsParens inner (graft op left a) = false := by
          apply leftNeedsParens_of_eq
          rw [phrase_graft, BinaryOp.precedence_phrase, hprecedence]
        have hright : rightNeedsParens op (binary inner a b) = false := by
          rw [rightNeedsParens_of_isAssociative hassoc rfl]
          apply leftNeedsParens_of_eq
          rw [phrase, BinaryOp.precedence_phrase, hprecedence]
        have hleft : rightNeedsParens op a = leftNeedsParens inner a :=
          rightNeedsParens_of_isAssociative hassoc hprecedence a
        have hnone : ∀ tokens, parenthesizeIf false tokens = tokens := fun _ => rfl
        rw [graft_binary hprecedence, toInfix, hgraft, iha]
        simp only [toInfix, hleft, hright, hnone, List.append_assoc, List.cons_append]
      · rw [graft, if_neg hprecedence]

theorem toInfix_join (op : BinaryOp) (left right : Expr) :
    (join op left right).toInfix = (binary op left right).toInfix := by
  cases hassoc : op.isAssociative with
  | true => rw [join_of_isAssociative hassoc, toInfix_graft hassoc]
  | false => rw [join_of_not_isAssociative hassoc]

/-- Regrouping does not change how an expression is written. -/
theorem toInfix_regroup (e : Expr) : e.regroup.toInfix = e.toInfix := by
  induction e with
  | literal value => rfl
  | identifier name => rfl
  | binary op left right ihl ihr =>
      have hleft : leftNeedsParens op left.regroup = leftNeedsParens op left := by
        rw [leftNeedsParens, leftNeedsParens, Bool.eq_iff_iff, isLooserThan_iff, isLooserThan_iff,
          phrase_regroup]
      rw [regroup, toInfix_join, toInfix, ihl, ihr, hleft, rightNeedsParens_regroup, toInfix]
  | call f argument ih => rw [regroup, toInfix, ih, toInfix]

/-- Expressions have the same infix tokens exactly when they differ in grouping alone. -/
theorem toInfix_eq_toInfix_iff {e e' : Expr} :
    e.toInfix = e'.toInfix ↔ e.regroup = e'.regroup := by
  constructor
  · intro h
    have hderives := e'.derives_toInfix
    rw [← h] at hderives
    exact hderives.unique e.derives_toInfix
  · intro h
    rw [← e.toInfix_regroup, h, e'.toInfix_regroup]

/-- The infix tokens of an expression with usable names can be told apart on a line. -/
theorem isLegible_toInfix {e : Expr}
    (hnames : ∀ name, e.mentions name = true → Settings.isVariable name = true) :
    Token.IsLegible e.toInfix where
  named := isWellNamed_of_mem_toInfix hnames
  called := e.derives_toInfix.isInfix.isChain_calls

end Expr

/-- Expressions are written alike exactly when they differ in grouping alone, also where they have
    negative literals. What is read back from the text or the tokens of an expression is written as
    it was. -/
theorem render_eq_render_iff {e e' : Expr}
    (hnames : ∀ name, e.mentions name = true → Settings.isVariable name = true)
    (hnames' : ∀ name, e'.mentions name = true → Settings.isVariable name = true) :
    (e.render = e'.render ↔ e.regroup = e'.regroup) ∧
      ∀ limit result, (Expr.read limit e.render).outcome = .ok result ∨
        (Expr.parse limit e.toInfix).outcome = .ok result → result.render = e.render := by
  constructor
  · rw [← Expr.toInfix_eq_toInfix_iff]
    constructor
    · intro h
      exact Token.eq_of_infixLine_eq (Expr.isLegible_toInfix hnames)
        (Expr.isLegible_toInfix hnames') h
    · intro h
      rw [Expr.render, Expr.render, h]
  · intro limit result h
    have hresult : result = e.regroup := by
      rcases h with hread | hparse
      · exact ((Expr.outcome_read_render_eq_ok_iff hnames).mp hread).2.2
      · exact ((Expr.outcome_parse_eq_ok_iff e.derives_toInfix).mp hparse).2
    rw [hresult, Expr.render, e.toInfix_regroup, Expr.render]

/-- `a * (b / -1) + (-2 - c)` -/
def signedChain : Expr :=
  .sum (.product (.identifier "a") (.quotient (.identifier "b") (.literal (-1))))
    (.difference (.literal (-2)) (.identifier "c"))

/-- `((a * b) / -1 + -2) - c`, which is grouped to the left. -/
def signedChainRegrouped : Expr :=
  .difference
    (.sum (.quotient (.product (.identifier "a") (.identifier "b")) (.literal (-1)))
      (.literal (-2)))
    (.identifier "c")

theorem render_signedChain :
    (∀ name, signedChain.mentions name = true → Settings.isVariable name = true) ∧
      (∀ name, signedChainRegrouped.mentions name = true → Settings.isVariable name = true) ∧
      signedChain ≠ signedChainRegrouped ∧
      signedChain.render = signedChainRegrouped.render ∧
      (Expr.parse 5 signedChain.toInfix).outcome = .ok signedChainRegrouped ∧
      signedChainRegrouped.render = signedChain.render := by
  have hnames : ∀ name, signedChain.mentions name = true → Settings.isVariable name = true := by
    intro name h
    have hname : ("a" = name ∨ "b" = name) ∨ "c" = name := by
      simpa [signedChain, Expr.mentions] using h
    rcases hname with (rfl | rfl) | rfl <;> decide
  have hnames' : ∀ name, signedChainRegrouped.mentions name = true →
      Settings.isVariable name = true := by
    intro name h
    have hname : ("a" = name ∨ "b" = name) ∨ "c" = name := by
      simpa [signedChainRegrouped, Expr.mentions] using h
    rcases hname with (rfl | rfl) | rfl <;> decide
  have hparse : (Expr.parse 5 signedChain.toInfix).outcome = .ok signedChainRegrouped := rfl
  rcases render_eq_render_iff hnames hnames' with ⟨hiff, hstable⟩
  exact ⟨hnames, hnames', by decide, hiff.mpr (by decide), hparse, hstable 5 _ (.inr hparse)⟩

end SymbolicCalculus
