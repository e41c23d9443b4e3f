/-
Module: SymbolicCalculus.Proofs.Conservation
Layer: Proofs
Purpose: The conversion to postfix order keeps every token but the parentheses. What has been
  emitted and what still waits are together, in some order, the tokens taken so far. Tokens are then
  counted by what they do to the number of operands: a value adds one, an operator makes one of two.
  A list that is read comes to exactly one, wherever its tokens stand.
Trusted boundary: none
Main exports: Postfix.perm_of_step, Postfix.perm_of_ofInfix, Token.balance, Expr.balance_of_parse
-/
import SymbolicCalculus.Proofs.GrammarAgreement

namespace SymbolicCalculus

/-- Tokens without their parentheses. -/
def Token.withoutParens (tokens : List Token) : List Token :=
  tokens.filter (!·.isParenthesis)

theorem Token.withoutParens_cons (token : Token) (rest : List Token) :
    withoutParens (token :: rest) = withoutParens [token] ++ withoutParens rest := by
  rw [withoutParens, ← List.singleton_append, List.filter_append]
  rfl

namespace Postfix

/-- A function that is called leaves the stack for what is emitted. -/
theorem closeCall_append (stack : List Pending) :
    (closeCall stack).1 ++ (closeCall stack).2.flatMap Pending.emission =
      stack.flatMap Pending.emission := by
  cases stack with
  | nil => rfl
  | cons top rest =>
      cases top with
      | operator op => rfl
      | openParen => rfl
      | function f => rfl

/-- A group that closes sends off what it held, and loses only its parenthesis. -/
theorem append_of_closeGroup {stack left : List Pending} {emitted : List Token}
    (h : closeGroup stack = .ok (emitted, left)) :
    emitted ++ left.flatMap Pending.emission = stack.flatMap Pending.emission := by
  rcases closeGroup_eq_ok_iff.mp h with ⟨rest, hrest, rfl, rfl⟩
  calc
    _ = (stack.takeWhile Pending.isOperator).flatMap Pending.emission ++
        rest.flatMap Pending.emission := by rw [List.append_assoc, closeCall_append]
    _ = (stack.takeWhile Pending.isOperator ++ .openParen :: rest).flatMap Pending.emission := by
        rw [List.flatMap_append, List.flatMap_cons]
        rfl
    _ = stack.flatMap Pending.emission := by rw [← hrest, List.takeWhile_append_dropWhile]

/-- A step keeps what waits and takes its token, if that is no parenthesis. -/
theorem perm_of_step {limit : Nat} {stack left : List Pending} {token : Token}
    {following emitted : List Token}
    (h : step limit stack token following = .ok (emitted, left)) :
    (emitted ++ left.flatMap Pending.emission).Perm
      (stack.flatMap Pending.emission ++ Token.withoutParens [token]) := by
  cases token with
  | literal value =>
      cases h
      exact List.perm_append_comm
  | identifier name =>
      cases h
      exact List.perm_append_comm
  | function f =>
      rcases step_function_eq_ok_iff.mp h with ⟨-, rfl, rfl⟩
      exact (List.perm_append_singleton (.function f) (stack.flatMap Pending.emission)).symm
  | operator op =>
      cases h
      have hmoved : ((stack.takeWhile (·.yieldsTo op)).flatMap Pending.emission ++
          .operator op :: (stack.dropWhile (·.yieldsTo op)).flatMap Pending.emission).Perm
          (.operator op :: ((stack.takeWhile (·.yieldsTo op)).flatMap Pending.emission ++
            (stack.dropWhile (·.yieldsTo op)).flatMap Pending.emission)) := List.perm_middle
      rw [← List.flatMap_append, List.takeWhile_append_dropWhile] at hmoved
      exact hmoved.trans (List.perm_append_singleton _ _).symm
  | openParen =>
      cases h
      rw [List.nil_append]
      exact List.Perm.of_eq (List.append_nil _).symm
  | closeParen =>
      rw [append_of_closeGroup h]
      exact List.Perm.of_eq (List.append_nil _).symm

/-- A run puts the tokens, without their parentheses, into some order with what waited before. -/
theorem perm_of_run {limit : Nat} {stack : List Pending} {tokens output : List Token}
    (h : run limit stack tokens = .ok output) :
    output.Perm (stack.flatMap Pending.emission ++ Token.withoutParens tokens) := by
  induction tokens generalizing stack output with
  | nil =>
      rcases finish_eq_ok_iff.mp h with ⟨-, rfl⟩
      exact List.Perm.of_eq (List.append_nil _).symm
  | cons token rest ih =>
      rcases run_cons_eq_ok_iff.mp h with ⟨emitted, left, later, hstep, hlater, rfl⟩
      have htail := (ih hlater).append_left emitted
      rw [← List.append_assoc] at htail
      have hhead := (perm_of_step hstep).append_right (Token.withoutParens rest)
      rw [List.append_assoc (stack.flatMap _), ← Token.withoutParens_cons] at hhead
      exact htail.trans hhead

/-- Postfix order has the tokens of infix order, less the parentheses. -/
theorem perm_of_ofInfix {limit : Nat} {tokens output : List Token}
    (h : ofInfix limit tokens = .ok output) : output.Perm (Token.withoutParens tokens) :=
  perm_of_run h

end Postfix

/-! ### Counting operands -/

namespace Token

/-- By how much a token of a postfix list changes the number of operands. -/
def gain : Token → Int
  | .literal _ | .identifier _ => 1
  | .operator _ => -1
  | .function _ | .openParen | .closeParen => 0

/-- By how much a list of tokens changes the number of operands. -/
def balance : List Token → Int
  | [] => 0
  | token :: rest => token.gain + balance rest

@[simp] theorem balance_nil : balance [] = 0 := rfl

@[simp] theorem balance_cons (token : Token) (rest : List Token) :
    balance (token :: rest) = token.gain + balance rest := rfl

@[simp] theorem balance_append (first second : List Token) :
    balance (first ++ second) = balance first + balance second := by
  induction first with
  | nil => exact (Int.zero_add _).symm
  | cons token rest ih => rw [List.cons_append, balance_cons, balance_cons, ih, Int.add_assoc]

/-- The order of tokens does not change their balance. -/
theorem balance_eq_of_perm {first second : List Token} (h : first.Perm second) :
    balance first = balance second := by
  induction h with
  | nil => rfl
  | cons token _ ih => rw [balance_cons, balance_cons, ih]
  | swap token other rest =>
      simp only [balance_cons]
      exact Int.add_left_comm _ _ _
  | trans _ _ ih ih' => exact ih.trans ih'

/-- Parentheses do not count. -/
theorem balance_withoutParens (tokens : List Token) :
    balance (withoutParens tokens) = balance tokens := by
  induction tokens with
  | nil => rfl
  | cons token rest ih =>
      rw [withoutParens_cons, balance_append, balance_cons, ih]
      congr 1
      cases token with
      | literal _ | identifier _ | function _ | operator _ | openParen | closeParen => rfl

end Token

namespace Expr

/-- The nodes of an expression leave one operand. -/
theorem balance_toPostfix (e : Expr) : Token.balance e.toPostfix = 1 := by
  induction e with
  | literal value => rfl
  | identifier name => rfl
  | binary op left right ihl ihr => simp [toPostfix, ihl, ihr, Token.gain]
  | call f argument ih => simp [toPostfix, ih, Token.gain]

/-- A list that is read leaves one operand. -/
theorem balance_of_parse {limit : Nat} {tokens : List Token} {e : Expr}
    (h : (parse limit tokens).outcome = .ok e) : Token.balance tokens = 1 := by
  rcases outcome_parse_eq_ok_iff_ofInfix.mp h with ⟨hordered, -⟩
  have hperm : e.toPostfix.Perm (Token.withoutParens tokens) := Postfix.perm_of_ofInfix hordered
  rw [← Token.balance_withoutParens, ← Token.balance_eq_of_perm hperm, balance_toPostfix]

end Expr

/-- A well-formed list leaves one operand. -/
theorem IsInfix.balance_eq_one {tokens : List Token} (h : IsInfix tokens) :
    Token.balance tokens = 1 := by
  induction h with
  | literal value => rfl
  | identifier name => rfl
  | operation op _ _ ihl ihr => simp [ihl, ihr, Token.gain]
  | group _ ih => simp [ih, Token.gain]
  | call f _ ih => simp [ih, Token.gain]

end SymbolicCalculus
