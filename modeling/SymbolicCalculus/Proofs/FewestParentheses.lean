/-
Module: SymbolicCalculus.Proofs.FewestParentheses
Layer: Proofs
Purpose: An expression is written with the fewest parentheses. Every list of the grammar that is
  read as the expression has the tokens that the expression is written with, in the same order, and
  beside them only pairs of parentheses around operands. So no list of the grammar is shorter. The
  proof follows a derivation: a phrase of some kind can lose pairs until it is what is written
  wherever a phrase of that kind may stand, and precedence asks for at least the parentheses that
  are written.
Trusted boundary: human-reviewed spec
Main exports: Token.DropsPair, Token.DropsPairs, IsInfix.balanced, Expr.infixAs,
  Phrase.Derives.dropsPairs, toInfix_has_fewest_parentheses
-/
import SymbolicCalculus.Proofs.RenderingEquality
import SymbolicCalculus.Proofs.Spans
import Mathlib.Logic.Relation

namespace SymbolicCalculus

namespace Token

/-- One pair of parentheses is left out. The two match, since what stands between them is balanced,
    and they do not stand behind a function. -/
inductive DropsPair : List Token → List Token → Prop where
  | pair {before inside after : List Token} : (∀ f, before.getLast? ≠ some (.function f)) →
      Span.balanced 0 inside = true →
      DropsPair (before ++ .openParen :: (inside ++ .closeParen :: after))
        (before ++ (inside ++ after))

/-- Any number of pairs of parentheses is left out, one after the other. -/
abbrev DropsPairs : List Token → List Token → Prop :=
  Relation.ReflTransGen DropsPair

variable {tokens fewer : List Token}

/-- A pair is two tokens. -/
theorem DropsPair.length_eq (h : DropsPair tokens fewer) : tokens.length = fewer.length + 2 := by
  cases h with
  | pair _ _ =>
      simp only [List.length_append, List.length_cons]
      omega

theorem DropsPairs.length_le (h : DropsPairs tokens fewer) : fewer.length ≤ tokens.length := by
  induction h with
  | refl => exact Nat.le_refl _
  | tail _ hpair ih =>
      have hlength := hpair.length_eq
      omega

/-- A pair may be left out wherever the tokens stand, if they do not stand behind a function. -/
theorem DropsPair.between (h : DropsPair tokens fewer) (head tail : List Token)
    (hhead : ∀ f, head.getLast? ≠ some (.function f)) :
    DropsPair (head ++ (tokens ++ tail)) (head ++ (fewer ++ tail)) := by
  cases h with
  | @pair before inside after hbefore hinside =>
      have hbefore' : ∀ f, (head ++ before).getLast? ≠ some (.function f) := by
        intro f hlast
        rw [List.getLast?_append] at hlast
        cases hend : before.getLast? with
        | none => exact hhead f (by simpa [hend] using hlast)
        | some token => exact hbefore f (by simpa [hend] using hlast)
      have hpair : DropsPair
          ((head ++ before) ++ .openParen :: (inside ++ .closeParen :: (after ++ tail)))
          ((head ++ before) ++ (inside ++ (after ++ tail))) := .pair hbefore' hinside
      simpa only [List.append_assoc, List.cons_append] using hpair

theorem DropsPairs.between (h : DropsPairs tokens fewer) (head tail : List Token)
    (hhead : ∀ f, head.getLast? ≠ some (.function f)) :
    DropsPairs (head ++ (tokens ++ tail)) (head ++ (fewer ++ tail)) := by
  induction h with
  | refl => exact .refl
  | tail _ hpair ih => exact ih.tail (hpair.between head tail hhead)

/-- Both operands of an operator may lose pairs. -/
theorem DropsPairs.operation (op : BinaryOp) {left left' right right' : List Token}
    (hleft : DropsPairs left left') (hright : DropsPairs right right') :
    DropsPairs (left ++ .operator op :: right) (left' ++ .operator op :: right') := by
  have hbefore : DropsPairs (left ++ .operator op :: right) (left' ++ .operator op :: right) :=
    hleft.between [] (.operator op :: right) (by simp)
  have hbehind := hright.between (left' ++ [.operator op]) [] (by simp)
  simp only [List.append_nil, List.append_assoc, List.singleton_append] at hbehind
  exact hbefore.trans hbehind

end Token

open Token (DropsPairs)

/-! ### Pairs that may be left out -/

/-- A well-formed list closes the parentheses that it opens, and no others. -/
theorem IsInfix.balanced {tokens : List Token} (h : IsInfix tokens) :
    Span.balanced 0 tokens = true := by
  have hgroup : ∀ {tokens : List Token}, Span.balanced 0 tokens = true →
      Span.balanced 0 (.openParen :: (tokens ++ [.closeParen])) = true := fun htokens =>
    Span.balanced_cons.mpr ⟨by simp, (Span.balanced_append htokens 1 [.closeParen]).mpr rfl⟩
  induction h with
  | literal value => rfl
  | identifier name => rfl
  | operation op _ _ ihl ihr =>
      exact (Span.balanced_append ihl 0 _).mpr (Span.balanced_cons.mpr ⟨by simp, ihr⟩)
  | group _ ih => exact hgroup ih
  | call f _ ih => exact Span.balanced_cons.mpr ⟨by simp, hgroup ih⟩

/-- Parentheses around a whole list are left out when they are not needed. -/
theorem dropsPairs_parenthesizeIf {tokens : List Token} (h : Span.balanced 0 tokens = true)
    {written needed : Bool} (hneeded : needed = true → written = true) :
    DropsPairs (Expr.parenthesizeIf written tokens) (Expr.parenthesizeIf needed tokens) := by
  cases written with
  | false =>
      have hnot : needed = false := Bool.eq_false_iff.mpr fun hneed => nomatch hneeded hneed
      rw [hnot]
  | true =>
      cases needed with
      | true => exact .refl
      | false =>
          have hpair : Token.DropsPair ([] ++ .openParen :: (tokens ++ .closeParen :: []))
              ([] ++ (tokens ++ [])) := .pair (by simp) h
          rw [List.append_nil] at hpair
          exact .single hpair

namespace Expr

/-- The tokens of an expression where a phrase of the given kind may stand: they are put in
    parentheses when the expression binds looser. -/
def infixAs (phrase : Phrase) (e : Expr) : List Token :=
  parenthesizeIf (e.phrase.precedence < phrase.precedence) e.toInfix

/-- Where a sum may stand, an expression is written as it is. -/
theorem infixAs_sum (e : Expr) : e.infixAs .sum = e.toInfix := by
  rw [infixAs, decide_eq_false (Nat.not_lt.mpr e.phrase.sum_le)]
  rfl

/-- An operation is a phrase of its operator's kind and needs no parentheses there. -/
theorem infixAs_binary (op : BinaryOp) (left right : Expr) :
    (binary op left right).infixAs op.phrase =
      parenthesizeIf (leftNeedsParens op left) left.toInfix ++
        .operator op :: parenthesizeIf (rightNeedsParens op right) right.toInfix := by
  rw [infixAs, phrase, decide_eq_false (Nat.lt_irrefl _)]
  rfl

/-- A left operand stands where a phrase of the operator's own kind may. -/
theorem infixAs_left (op : BinaryOp) (left : Expr) :
    left.infixAs op.phrase = parenthesizeIf (leftNeedsParens op left) left.toInfix := by
  have hneeds : decide (left.phrase.precedence < op.phrase.precedence) = leftNeedsParens op left := by
    rw [leftNeedsParens, Bool.eq_iff_iff, isLooserThan_iff, decide_eq_true_iff,
      BinaryOp.precedence_phrase]
  rw [infixAs, hneeds]

/-- A right operand needs its parentheses only where it is no phrase of the next tighter kind. -/
theorem dropsPairs_right (op : BinaryOp) (right : Expr) :
    DropsPairs (right.infixAs op.phrase.tighter)
      (parenthesizeIf (rightNeedsParens op right) right.toInfix) := by
  apply dropsPairs_parenthesizeIf right.derives_toInfix.isInfix.balanced
  intro hneeds
  have htighter := op.precedence_lt_tighter
  rw [decide_eq_true_iff]
  rcases rightNeedsParens_iff.mp hneeds with hlooser | ⟨-, hequal⟩
  · exact Nat.lt_trans hlooser htighter
  · rwa [hequal]

/-- Where a looser phrase may stand, no more parentheses are needed. -/
theorem dropsPairs_loosen (phrase : Phrase) (e : Expr) :
    DropsPairs (e.infixAs phrase.tighter) (e.infixAs phrase) := by
  apply dropsPairs_parenthesizeIf e.derives_toInfix.isInfix.balanced
  intro hlooser
  rw [decide_eq_true_iff] at hlooser ⊢
  exact Nat.lt_of_lt_of_le hlooser phrase.precedence_le_tighter

end Expr

/-! ### Following a derivation -/

/-- A phrase can lose pairs of parentheses until it is what its expression is written with where
    such a phrase may stand. -/
theorem Phrase.Derives.dropsPairs {phrase : Phrase} {tokens : List Token} {e : Expr}
    (h : phrase.Derives tokens e) : DropsPairs tokens (e.infixAs phrase) := by
  induction h with
  | literal value => exact .refl
  | identifier name => exact .refl
  | @call f tokens e _ ih =>
      rw [Expr.infixAs_sum] at ih
      exact ih.between [.function f, .openParen] [.closeParen] (by simp)
  | @group tokens e _ ih =>
      rw [Expr.infixAs_sum] at ih
      have hgroup : DropsPairs (.openParen :: (tokens ++ [.closeParen]))
          (Expr.parenthesizeIf true e.toInfix) :=
        ih.between [.openParen] [.closeParen] (by simp)
      exact hgroup.trans
        (dropsPairs_parenthesizeIf e.derives_toInfix.isInfix.balanced fun _ => rfl)
  | @operand phrase tokens e _ ih => exact ih.trans (e.dropsPairs_loosen phrase)
  | @operation op left right a b _ _ ihl ihr =>
      rw [Expr.infixAs_left] at ihl
      rw [Expr.infixAs_binary]
      exact Token.DropsPairs.operation op ihl (ihr.trans (b.dropsPairs_right op))

/-- A list of the grammar loses pairs of parentheses until it is what is written for the expression
    that it is read as. -/
theorem Expr.dropsPairs_of_parse {limit : Nat} {tokens : List Token} {derived e : Expr}
    (hderives : Phrase.sum.Derives tokens derived)
    (hparse : (parse limit tokens).outcome = .ok e) : DropsPairs tokens e.toInfix := by
  obtain ⟨-, rfl⟩ := (outcome_parse_eq_ok_iff hderives).mp hparse
  rw [← infixAs_sum]
  exact hderives.dropsPairs

/-- An expression is written with the fewest parentheses. A list of the grammar that is read as the
    expression is what is written, once some pairs of matching parentheses are left out of it that
    are no call's. So no shorter list of the grammar is read as the expression, or as what the
    written tokens themselves are read as, which may be grouped in another way. -/
theorem toInfix_has_fewest_parentheses (e : Expr) :
    (∀ limit tokens derived, Phrase.sum.Derives tokens derived →
      (Expr.parse limit tokens).outcome = .ok e → Token.DropsPairs tokens e.toInfix) ∧
    ∀ limit tokens derived, Phrase.sum.Derives tokens derived →
      tokens.length < e.toInfix.length →
      (Expr.parse limit tokens).outcome ≠ .ok e ∧
        ∀ above reread, (Expr.parse above e.toInfix).outcome = .ok reread →
          (Expr.parse limit tokens).outcome ≠ .ok reread := by
  refine ⟨fun limit tokens derived => Expr.dropsPairs_of_parse, ?_⟩
  intro limit tokens derived hderives hshorter
  have hlength : ∀ result, result.toInfix = e.toInfix →
      (Expr.parse limit tokens).outcome ≠ .ok result := by
    intro result hwritten hparse
    have hpairs := (Expr.dropsPairs_of_parse hderives hparse).length_le
    rw [hwritten] at hpairs
    exact absurd hshorter (Nat.not_lt.mpr hpairs)
  refine ⟨hlength e rfl, fun above reread hreread => hlength reread ?_⟩
  obtain ⟨-, rfl⟩ := (Expr.outcome_parse_eq_ok_iff e.derives_toInfix).mp hreread
  exact e.toInfix_regroup

/-- `(a + (b - sin((c))))` -/
def wrappedChain : List Token :=
  [.openParen, .identifier "a", .operator .add, .openParen, .identifier "b", .operator .subtract,
    .function .sin, .openParen, .openParen, .identifier "c", .closeParen, .closeParen, .closeParen,
    .closeParen]

/-- The tree of `(a + (b - sin((c))))`, which is written `a + b - sin(c)`. -/
def chainExpr : Expr :=
  .sum (.identifier "a") (.difference (.identifier "b") (.call .sin (.identifier "c")))

theorem derives_wrappedChain : Phrase.sum.Derives wrappedChain chainExpr := by
  have hcall := Phrase.Derives.call .sin
    ((Phrase.Derives.group ((Phrase.Derives.identifier "c").of_primary .sum)).of_primary .sum)
  have hdifference := Phrase.Derives.operation .subtract
    ((Phrase.Derives.identifier "b").of_primary .sum) (hcall.of_primary .product)
  have hsum := Phrase.Derives.operation .add ((Phrase.Derives.identifier "a").of_primary .sum)
    ((Phrase.Derives.group hdifference).of_primary .product)
  exact (Phrase.Derives.group hsum).of_primary .sum

theorem toInfix_of_wrappedChain :
    Phrase.sum.Derives wrappedChain chainExpr ∧
      (Expr.parse 4 wrappedChain).outcome = .ok chainExpr ∧
      Token.DropsPairs wrappedChain
        [.identifier "a", .operator .add, .identifier "b", .operator .subtract, .function .sin,
          .openParen, .identifier "c", .closeParen] ∧
      (Expr.parse 4 chainExpr.toInfix).outcome = .ok chainExpr.regroup ∧
      Phrase.sum.Derives [.identifier "a"] (.identifier "a") ∧
      (Expr.parse 4 [.identifier "a"]).outcome ≠ .ok chainExpr ∧
      (Expr.parse 4 [.identifier "a"]).outcome ≠ .ok chainExpr.regroup := by
  have hparse : (Expr.parse 4 wrappedChain).outcome = .ok chainExpr := rfl
  have hreread : (Expr.parse 4 chainExpr.toInfix).outcome = .ok chainExpr.regroup := rfl
  have hshort : Phrase.sum.Derives [.identifier "a"] (.identifier "a") :=
    (Phrase.Derives.identifier "a").of_primary .sum
  obtain ⟨hdrops, hfewest⟩ := toInfix_has_fewest_parentheses chainExpr
  obtain ⟨hself, hgrouped⟩ := hfewest 4 _ _ hshort (by decide)
  exact ⟨derives_wrappedChain, hparse, hdrops 4 _ _ derives_wrappedChain hparse, hreread, hshort,
    hself, hgrouped 4 _ hreread⟩

end SymbolicCalculus
