/-
Module: SymbolicCalculus.Proofs.Regrouping
Layer: Proofs
Purpose: What the infix tokens of an expression stand for. Writing leaves out the parentheses of
  `a + (b - c)`, so the tokens stand for `(a + b) - c`: every right operand of a sum or a product
  that binds equally is taken apart and grouped to the left. `regroup` does this to a whole
  expression, and `derives_toInfix` derives its tokens with just that tree. An expression is left
  as it is exactly when it has no such operand.
Trusted boundary: human-reviewed spec
Main exports: Expr.graft, Expr.regroup, Expr.isLeftGrouped, Expr.derives_toInfix,
  Expr.regroup_eq_self_iff
-/
import SymbolicCalculus.Expr.Infix
import SymbolicCalculus.Proofs.Grammar

namespace SymbolicCalculus

namespace Expr

/-- Joins two expressions by an operator and groups to the left. As long as the right one is an
    operation of the same precedence, only its left operand is joined. -/
def graft (op : BinaryOp) (left right : Expr) : Expr :=
  match right with
  | .binary inner a b =>
      if inner.precedence = op.precedence then .binary inner (graft op left a) b
      else .binary op left right
  | .literal _ | .identifier _ | .call .. => .binary op left right

/-- Joins two expressions the way their infix tokens do: an operator that regroups is grafted. -/
def join (op : BinaryOp) (left right : Expr) : Expr :=
  if op.isAssociative then graft op left right else .binary op left right

/-- Groups every sum and product in an expression to the left, from the leaves up. -/
def regroup : Expr → Expr
  | .literal value => .literal value
  | .identifier name => .identifier name
  | .binary op left right => join op left.regroup right.regroup
  | .call f argument => .call f argument.regroup

/-- Whether no right operand of a sum or a product is an operation that binds equally. -/
def isLeftGrouped : Expr → Bool
  | .literal _ | .identifier _ => true
  | .binary op left right =>
      left.isLeftGrouped && right.isLeftGrouped && !(op.isAssociative && right.bindsLike op)
  | .call _ argument => argument.isLeftGrouped

/-- The number of nodes of an expression. -/
def size : Expr → Nat
  | .literal _ | .identifier _ => 1
  | .binary _ left right => left.size + right.size + 1
  | .call _ argument => argument.size + 1

/-- The kind of phrase that the infix tokens of an expression are. -/
def phrase : Expr → Phrase
  | .literal _ | .identifier _ | .call .. => .primary
  | .binary op _ _ => op.phrase

/-! ### Joining -/

theorem isLooserThan_iff {op : BinaryOp} {e : Expr} :
    e.isLooserThan op = true ↔ e.phrase.precedence < op.precedence := by
  cases e with
  | binary inner _ _ => simp [isLooserThan, phrase]
  | literal _ | identifier _ | call _ _ =>
      have h := op.precedence_lt_primary
      simp only [isLooserThan, phrase]
      exact ⟨fun h' => by simp at h', fun h' => absurd h' (Nat.lt_asymm h)⟩

theorem isLooserThan_congr {op inner : BinaryOp} (h : inner.precedence = op.precedence)
    (e : Expr) : e.isLooserThan op = e.isLooserThan inner := by
  rw [Bool.eq_iff_iff, isLooserThan_iff, isLooserThan_iff, h]

theorem bindsLike_iff {op : BinaryOp} {e : Expr} :
    e.bindsLike op = true ↔ e.phrase.precedence = op.precedence := by
  cases e with
  | binary inner _ _ => simp [bindsLike, phrase]
  | literal _ | identifier _ | call _ _ =>
      have h := op.precedence_lt_primary
      simp only [bindsLike, phrase]
      exact ⟨fun h' => by simp at h', fun h' => absurd h' (Nat.ne_of_gt h)⟩

theorem graft_of_ne {op : BinaryOp} {left right : Expr}
    (h : right.phrase.precedence ≠ op.precedence) :
    graft op left right = .binary op left right := by
  cases right with
  | binary inner a b =>
      rw [phrase, BinaryOp.precedence_phrase] at h
      rw [graft, if_neg h]
  | literal _ | identifier _ | call _ _ => rfl

theorem graft_binary {op inner : BinaryOp} (h : inner.precedence = op.precedence)
    (left a b : Expr) : graft op left (.binary inner a b) = .binary inner (graft op left a) b := by
  rw [graft, if_pos h]

/-- A join is a plain node unless its operator regroups and the right operand binds equally. -/
theorem join_eq_binary {op : BinaryOp} {left right : Expr}
    (h : (op.isAssociative && right.bindsLike op) = false) :
    join op left right = .binary op left right := by
  rw [join]
  split
  · rename_i hassoc
    apply graft_of_ne
    rw [Ne, ← bindsLike_iff]
    simpa [hassoc] using h
  · rfl

theorem join_of_ne {op : BinaryOp} {left right : Expr}
    (h : right.phrase.precedence ≠ op.precedence) : join op left right = .binary op left right := by
  rw [join, graft_of_ne h, ite_self]

theorem join_of_isAssociative {op : BinaryOp} (h : op.isAssociative = true) (left right : Expr) :
    join op left right = graft op left right := by
  rw [join, if_pos h]

theorem join_of_not_isAssociative {op : BinaryOp} (h : op.isAssociative = false)
    (left right : Expr) : join op left right = .binary op left right := by
  rw [join, h]
  rfl

/-- Grafting is associative across operators of one precedence. -/
theorem graft_graft {op inner : BinaryOp} (h : inner.precedence = op.precedence) (a b c : Expr) :
    graft op a (graft inner b c) = graft inner (graft op a b) c := by
  induction c with
  | literal value => exact graft_binary h a b _
  | identifier name => exact graft_binary h a b _
  | call f argument _ => exact graft_binary h a b _
  | binary last c d ihc _ =>
      by_cases hlast : last.precedence = inner.precedence
      · rw [graft_binary hlast, graft_binary hlast, graft_binary (hlast.trans h), ihc]
      · have hne : (Expr.binary last c d).phrase.precedence ≠ inner.precedence := by
          rwa [phrase, BinaryOp.precedence_phrase]
        rw [graft_of_ne hne, graft_of_ne hne, graft_binary h]

/-- A graft on a joined expression is joined later. -/
theorem graft_join {op inner : BinaryOp} (h : inner.precedence = op.precedence) (a b c : Expr) :
    graft op a (join inner b c) = join inner (graft op a b) c := by
  cases hassoc : inner.isAssociative with
  | true =>
      rw [join_of_isAssociative hassoc, join_of_isAssociative hassoc, graft_graft h]
  | false =>
      rw [join_of_not_isAssociative hassoc, join_of_not_isAssociative hassoc, graft_binary h]

theorem phrase_graft (op : BinaryOp) (left right : Expr) :
    (graft op left right).phrase = op.phrase := by
  by_cases h : right.phrase.precedence = op.precedence
  · cases right with
    | binary inner a b =>
        rw [phrase, BinaryOp.precedence_phrase] at h
        rw [graft_binary h]
        exact Phrase.eq_of_precedence (by simpa [phrase] using h)
    | literal _ | identifier _ | call _ _ =>
        exact absurd h (Nat.ne_of_gt op.precedence_lt_primary)
  · rw [graft_of_ne h]
    rfl

@[simp] theorem phrase_join (op : BinaryOp) (left right : Expr) :
    (join op left right).phrase = op.phrase := by
  rw [join]
  split
  · exact phrase_graft op left right
  · rfl

/-- Regrouping changes what is below an operator, and not how tightly the whole binds. -/
@[simp] theorem phrase_regroup (e : Expr) : e.regroup.phrase = e.phrase := by
  cases e with
  | binary op left right => exact phrase_join op _ _
  | literal _ | identifier _ | call _ _ => rfl

/-! ### The tokens of an expression -/

/-- An operand that does not bind looser than its operator needs no parentheses on the left. -/
theorem derives_left {op : BinaryOp} {left : Expr}
    (h : left.phrase.Derives left.toInfix left.regroup) :
    op.phrase.Derives (parenthesizeIf (leftNeedsParens op left) left.toInfix) left.regroup := by
  rw [leftNeedsParens]
  cases hloose : left.isLooserThan op with
  | true => exact (Phrase.Derives.group (h.loosen left.phrase.sum_le)).of_primary _
  | false =>
      apply h.loosen
      rw [BinaryOp.precedence_phrase]
      exact Nat.le_of_not_lt fun hlt => by simp [isLooserThan_iff.mpr hlt] at hloose

/-- A right operand is put in parentheses when it binds looser than its operator, and when it binds
    equally and may not be grouped to the left. -/
theorem rightNeedsParens_iff {op : BinaryOp} {e : Expr} :
    rightNeedsParens op e = true ↔
      e.phrase.precedence < op.precedence ∨
        op.isAssociative = false ∧ e.phrase.precedence = op.precedence := by
  simp [rightNeedsParens, isLooserThan_iff, bindsLike_iff]

theorem rightNeedsParens_regroup (op : BinaryOp) (e : Expr) :
    rightNeedsParens op e.regroup = rightNeedsParens op e := by
  rw [Bool.eq_iff_iff, rightNeedsParens_iff, rightNeedsParens_iff, phrase_regroup]

/-- Behind an operator that regroups, a right operand needs the parentheses that it would need as
    the left operand of any operator of the same precedence. -/
theorem rightNeedsParens_of_isAssociative {op inner : BinaryOp} (hassoc : op.isAssociative = true)
    (hprecedence : inner.precedence = op.precedence) (e : Expr) :
    rightNeedsParens op e = leftNeedsParens inner e := by
  rw [rightNeedsParens, leftNeedsParens, hassoc, isLooserThan_congr hprecedence]
  exact Bool.or_false _

/-- A right operand in parentheses is not grafted. -/
theorem join_of_rightNeedsParens {op : BinaryOp} {left right : Expr}
    (h : rightNeedsParens op right = true) : join op left right = .binary op left right := by
  rcases rightNeedsParens_iff.mp h with hlt | ⟨hassoc, -⟩
  · exact join_of_ne (Nat.ne_of_lt hlt)
  · exact join_of_not_isAssociative hassoc left right

/-- A right operand is derived behind its operator, whichever way it binds. The operator makes a
    node above it unless it is grafted, and that case is left to the caller. -/
theorem derives_join {op : BinaryOp} {e a : Expr} {tokens : List Token}
    (h : e.phrase.Derives e.toInfix e.regroup) (ha : op.phrase.Derives tokens a)
    (hgraft : op.isAssociative = true → e.phrase.precedence = op.precedence →
      op.phrase.Derives (tokens ++ .operator op :: e.toInfix) (graft op a e.regroup)) :
    op.phrase.Derives
      (tokens ++ .operator op :: parenthesizeIf (rightNeedsParens op e) e.toInfix)
      (join op a e.regroup) := by
  cases hneeds : rightNeedsParens op e with
  | true =>
      have hgroup := Phrase.Derives.group (h.loosen e.phrase.sum_le)
      rw [← rightNeedsParens_regroup] at hneeds
      rw [join_of_rightNeedsParens hneeds]
      exact .operation op ha (hgroup.of_primary _)
  | false =>
      rw [← Bool.not_eq_true, rightNeedsParens_iff, not_or] at hneeds
      rcases hneeds with ⟨hnotLooser, hnotBoth⟩
      by_cases heq : e.phrase.precedence = op.precedence
      · have hassoc : op.isAssociative = true := by
          rw [← Bool.not_eq_false]
          intro hassoc
          exact hnotBoth ⟨hassoc, heq⟩
        rw [join_of_isAssociative hassoc]
        exact hgraft hassoc heq
      · have hlt : op.phrase.precedence < e.phrase.precedence := by
          rw [op.precedence_phrase]
          exact Nat.lt_of_le_of_ne (Nat.le_of_not_lt hnotLooser) (Ne.symm heq)
        rw [← phrase_regroup] at heq
        rw [join_of_ne heq]
        exact .operation op ha (h.loosen (Phrase.tighter_le_of_lt hlt))

/-- The infix tokens of an expression are a phrase that stands for it regrouped, and behind an
    operator they stand for a join. The second part is what the first needs of right operands, and
    descends along the left edge of one that is grafted. -/
theorem derives_toInfix_and_join (e : Expr) :
    e.phrase.Derives e.toInfix e.regroup ∧
      ∀ {op : BinaryOp} {tokens : List Token} {a : Expr}, op.phrase.Derives tokens a →
        op.phrase.Derives
          (tokens ++ .operator op :: parenthesizeIf (rightNeedsParens op e) e.toInfix)
          (join op a e.regroup) := by
  induction e with
  | literal value =>
      have hself : Phrase.primary.Derives [.literal value] (.literal value) := .literal value
      refine ⟨hself, fun {op} _ _ ha => derives_join hself ha fun _ heq => ?_⟩
      exact absurd heq (Nat.ne_of_gt op.precedence_lt_primary)
  | identifier name =>
      have hself : Phrase.primary.Derives [.identifier name] (.identifier name) := .identifier name
      refine ⟨hself, fun {op} _ _ ha => derives_join hself ha fun _ heq => ?_⟩
      exact absurd heq (Nat.ne_of_gt op.precedence_lt_primary)
  | call f argument ih =>
      have hself : Phrase.primary.Derives (toInfix (.call f argument)) (.call f argument.regroup) :=
        .call f (ih.1.loosen argument.phrase.sum_le)
      refine ⟨hself, fun {op} _ _ ha => derives_join hself ha fun _ heq => ?_⟩
      exact absurd heq (Nat.ne_of_gt op.precedence_lt_primary)
  | binary inner left right ihl ihr =>
      have hself : inner.phrase.Derives (toInfix (.binary inner left right))
          (join inner left.regroup right.regroup) := ihr.2 (derives_left ihl.1)
      refine ⟨hself, fun {op tokens a} ha => derives_join hself ha fun hassoc heq => ?_⟩
      rw [phrase, BinaryOp.precedence_phrase] at heq
      have hphrase : op.phrase = inner.phrase :=
        Phrase.eq_of_precedence (by simpa using heq.symm)
      have hleft := ihl.2 ha
      rw [rightNeedsParens_of_isAssociative hassoc heq, join_of_isAssociative hassoc, hphrase]
        at hleft
      have hright := ihr.2 hleft
      rw [List.append_assoc, List.cons_append] at hright
      rw [regroup, graft_join heq, hphrase]
      exact hright

/-- The infix tokens of an expression stand for it regrouped. -/
theorem derives_toInfix (e : Expr) : Phrase.sum.Derives e.toInfix e.regroup :=
  e.derives_toInfix_and_join.1.loosen e.phrase.sum_le

/-! ### Expressions that are left as they are -/

theorem size_graft (op : BinaryOp) (left right : Expr) :
    (graft op left right).size = left.size + right.size + 1 := by
  induction right with
  | literal value => rfl
  | identifier name => rfl
  | call f argument _ => rfl
  | binary inner a b iha _ =>
      rw [graft]
      split
      · rw [size, iha, size]
        omega
      · rfl

theorem size_join (op : BinaryOp) (left right : Expr) :
    (join op left right).size = left.size + right.size + 1 := by
  rw [join]
  split
  · exact size_graft op left right
  · rfl

/-- Regrouping keeps every node. -/
theorem size_regroup (e : Expr) : e.regroup.size = e.size := by
  induction e with
  | literal value => rfl
  | identifier name => rfl
  | binary op left right ihl ihr => rw [regroup, size_join, ihl, ihr, size]
  | call f argument ih => rw [regroup, size, ih, size]

/-- A join is a node above both operands exactly when nothing is grafted. -/
theorem join_eq_binary_iff {op : BinaryOp} {a b left right : Expr} (hsize : b.size = right.size) :
    join op a b = .binary op left right ↔
      a = left ∧ b = right ∧ (op.isAssociative && right.bindsLike op) = false := by
  cases hgrafts : op.isAssociative && b.bindsLike op with
  | false =>
      rw [join_eq_binary hgrafts, Expr.binary.injEq]
      constructor
      · intro h
        rcases h with ⟨-, rfl, rfl⟩
        exact ⟨rfl, rfl, hgrafts⟩
      · intro h
        rcases h with ⟨rfl, rfl, -⟩
        exact ⟨rfl, rfl, rfl⟩
  | true =>
      rcases Bool.and_eq_true_iff.mp hgrafts with ⟨hassoc, hlike⟩
      cases b with
      | binary inner c d =>
          have hprecedence : inner.precedence = op.precedence := by
            simpa [phrase] using bindsLike_iff.mp hlike
          rw [join_of_isAssociative hassoc, graft_binary hprecedence]
          constructor
          · intro h
            rcases Expr.binary.inj h with ⟨-, -, rfl⟩
            rw [size] at hsize
            omega
          · intro h
            rcases h with ⟨-, rfl, hgrafts'⟩
            rw [hgrafts] at hgrafts'
            cases hgrafts'
      | literal _ | identifier _ | call _ _ => cases hlike

/-- Regrouping leaves an expression as it is exactly when it is grouped to the left. -/
theorem regroup_eq_self_iff {e : Expr} : e.regroup = e ↔ e.isLeftGrouped = true := by
  induction e with
  | literal value => exact ⟨fun _ => rfl, fun _ => rfl⟩
  | identifier name => exact ⟨fun _ => rfl, fun _ => rfl⟩
  | call f argument ih =>
      rw [regroup, isLeftGrouped, ← ih]
      constructor
      · intro h
        exact (Expr.call.inj h).2
      · intro h
        rw [h]
  | binary op left right ihl ihr =>
      rw [regroup, join_eq_binary_iff right.size_regroup, ihl, ihr, isLeftGrouped]
      simp only [Bool.and_eq_true, Bool.not_eq_true', and_assoc]

end Expr

end SymbolicCalculus
