/-
Module: SymbolicCalculus.Proofs.ValueOrder
Layer: Proofs
Purpose: The order of values. The conversion to postfix order moves operators and functions only:
  each step emits its own token if that is a value, and what waits on the stack is never one. So the
  values come out in the order in which they went in, and are the leaves of the tree from left to
  right. The operators and functions of the tree are those among the tokens, in some order. None of
  this asks whether the tokens are well formed.
Trusted boundary: human-reviewed spec
Main exports: Token.isSymbol, Expr.leaves, Expr.symbols, Postfix.filter_isValue_of_ofInfix,
  tokens_of_parse
-/
import SymbolicCalculus.Proofs.Conservation

namespace SymbolicCalculus

/-- A symbol is an operator or a function: it takes operands and is none by itself. -/
def Token.isSymbol : Token → Bool
  | .function _ | .operator _ => true
  | .literal _ | .identifier _ | .openParen | .closeParen => false

namespace Expr

/-- The leaves of an expression from left to right. -/
def leaves : Expr → List Token
  | .literal value => [.literal value]
  | .identifier name => [.identifier name]
  | .binary _ left right => left.leaves ++ right.leaves
  | .call _ argument => argument.leaves

/-- The operators and functions of an expression, each before those of its operands. -/
def symbols : Expr → List Token
  | .literal _ | .identifier _ => []
  | .binary op left right => .operator op :: (left.symbols ++ right.symbols)
  | .call f argument => .function f :: argument.symbols

end Expr

namespace Postfix

/-! ### Values pass through the conversion -/

/-- What waits is no value. -/
theorem filter_isValue_emission (stack : List Pending) :
    (stack.flatMap Pending.emission).filter Token.isValue = [] := by
  rw [List.filter_eq_nil_iff]
  intro token htoken
  rcases List.mem_flatMap.mp htoken with ⟨top, -, hemission⟩
  cases top with
  | operator op =>
      rw [List.mem_singleton.mp hemission]
      exact Bool.false_ne_true
  | openParen => cases hemission
  | function f =>
      rw [List.mem_singleton.mp hemission]
      exact Bool.false_ne_true

/-- A step emits its own token if that is a value, and no other value. -/
theorem filter_isValue_of_step {limit : Nat} {stack left : List Pending} {token : Token}
    {following emitted : List Token}
    (h : step limit stack token following = .ok (emitted, left)) :
    emitted.filter Token.isValue = [token].filter Token.isValue := by
  cases token with
  | literal value =>
      cases h
      rfl
  | identifier name =>
      cases h
      rfl
  | function f =>
      rcases step_function_eq_ok_iff.mp h with ⟨-, rfl, -⟩
      rfl
  | operator op =>
      cases h
      exact filter_isValue_emission _
  | openParen =>
      cases h
      rfl
  | closeParen =>
      -- the group sends off what was on the stack, and that holds no value
      have hsent := congrArg (List.filter Token.isValue) (append_of_closeGroup h)
      rw [List.filter_append, filter_isValue_emission, filter_isValue_emission,
        List.append_nil] at hsent
      exact hsent

/-- A run emits the values among its tokens, in their order. -/
theorem filter_isValue_of_run {limit : Nat} {stack : List Pending} {tokens output : List Token}
    (h : run limit stack tokens = .ok output) :
    output.filter Token.isValue = tokens.filter Token.isValue := by
  induction tokens generalizing stack output with
  | nil =>
      rcases finish_eq_ok_iff.mp h with ⟨-, rfl⟩
      exact filter_isValue_emission stack
  | cons token rest ih =>
      rcases run_cons_eq_ok_iff.mp h with ⟨emitted, left, later, hstep, hlater, rfl⟩
      rw [List.filter_append, filter_isValue_of_step hstep, ih hlater, ← List.filter_append,
        List.singleton_append]

/-- Postfix order has the values of infix order, in the same order. -/
theorem filter_isValue_of_ofInfix {limit : Nat} {tokens output : List Token}
    (h : ofInfix limit tokens = .ok output) :
    output.filter Token.isValue = tokens.filter Token.isValue :=
  filter_isValue_of_run h

end Postfix

/-! ### Values and symbols of a tree -/

/-- Parentheses are no symbols, so nothing is missed without them. -/
theorem Token.filter_isSymbol_withoutParens (tokens : List Token) :
    (withoutParens tokens).filter isSymbol = tokens.filter isSymbol := by
  have hsymbol : ∀ token : Token, (!token.isParenthesis && token.isSymbol) = token.isSymbol := by
    intro token
    cases token <;> rfl
  rw [withoutParens, List.filter_filter]
  exact List.filter_congr fun token _ => by rw [Bool.and_comm, hsymbol]

namespace Expr

/-- The values among the nodes of an expression are its leaves. -/
theorem filter_isValue_toPostfix (e : Expr) : e.toPostfix.filter Token.isValue = e.leaves := by
  induction e with
  | literal value => rfl
  | identifier name => rfl
  | binary op left right ihl ihr =>
      rw [toPostfix, List.filter_append, List.filter_append, ihl, ihr]
      exact List.append_nil _
  | call f argument ih =>
      rw [toPostfix, List.filter_append, ih]
      exact List.append_nil _

/-- The symbols among the nodes of an expression stand behind their operands, and before them in
    `symbols`. -/
theorem perm_filter_isSymbol_toPostfix (e : Expr) :
    (e.toPostfix.filter Token.isSymbol).Perm e.symbols := by
  induction e with
  | literal value => exact .nil
  | identifier name => exact .nil
  | binary op left right ihl ihr =>
      rw [toPostfix, List.filter_append, List.filter_append]
      exact (List.perm_append_singleton _ _).trans ((ihl.append ihr).cons _)
  | call f argument ih =>
      rw [toPostfix, List.filter_append]
      exact (List.perm_append_singleton _ _).trans (ih.cons _)

/-- A tree that is read has the values of its tokens for its leaves, and their symbols for its
    own. -/
theorem leaves_and_symbols_of_parse {limit : Nat} {tokens : List Token} {e : Expr}
    (h : (parse limit tokens).outcome = .ok e) :
    e.leaves = tokens.filter Token.isValue ∧ e.symbols.Perm (tokens.filter Token.isSymbol) := by
  rcases outcome_parse_eq_ok_iff_ofInfix.mp h with ⟨hordered, -⟩
  constructor
  · rw [← filter_isValue_toPostfix]
    exact Postfix.filter_isValue_of_ofInfix hordered
  · have hkept := (Postfix.perm_of_ofInfix hordered).filter Token.isSymbol
    rw [Token.filter_isSymbol_withoutParens] at hkept
    exact (perm_filter_isSymbol_toPostfix e).symm.trans hkept

end Expr

/-- No token is lost, made up or doubled. Postfix order is the tokens without their parentheses,
    in another order that leaves the values as they were; a tree has the values for its leaves, from
    left to right, and the operators and functions for its nodes. -/
theorem tokens_of_parse (limit : Nat) (tokens : List Token) :
    (∀ output, (Postfix.reorder limit tokens).outcome = .ok output →
      output.Perm (Token.withoutParens tokens) ∧
        output.filter Token.isValue = tokens.filter Token.isValue) ∧
    (∀ e, (Expr.parse limit tokens).outcome = .ok e →
      e.leaves = tokens.filter Token.isValue ∧
        e.symbols.Perm (tokens.filter Token.isSymbol)) := by
  constructor
  · intro output h
    rw [Postfix.outcome_reorder] at h
    exact ⟨Postfix.perm_of_ofInfix h, Postfix.filter_isValue_of_ofInfix h⟩
  · intro e h
    exact Expr.leaves_and_symbols_of_parse h

/-- `sin(2 x ^) () y -`, in which no operator stands between its operands. -/
def misplacedTokens : List Token :=
  [.function .sin, .openParen, .literal 2, .identifier "x", .operator .power, .closeParen,
    .openParen, .closeParen, .identifier "y", .operator .subtract]

/-- `sin(2 ^ x) - y` -/
def misplacedExpr : Expr :=
  .difference (.call .sin (.power (.literal 2) (.identifier "x"))) (.identifier "y")

theorem tokens_of_parse_misplaced :
    (Postfix.reorder 4 misplacedTokens).outcome = .ok misplacedExpr.toPostfix ∧
      (Expr.parse 4 misplacedTokens).outcome = .ok misplacedExpr ∧
      misplacedExpr.toPostfix.Perm (Token.withoutParens misplacedTokens) ∧
      misplacedExpr.leaves = [.literal 2, .identifier "x", .identifier "y"] ∧
      misplacedExpr.symbols.Perm [.function .sin, .operator .power, .operator .subtract] := by
  have hreordered : (Postfix.reorder 4 misplacedTokens).outcome = .ok misplacedExpr.toPostfix := rfl
  have htree : (Expr.parse 4 misplacedTokens).outcome = .ok misplacedExpr := rfl
  rcases tokens_of_parse 4 misplacedTokens with ⟨hreorder, hparse⟩
  rcases hparse _ htree with ⟨hleaves, hsymbols⟩
  exact ⟨hreordered, htree, (hreorder _ hreordered).1, hleaves, hsymbols⟩

end SymbolicCalculus
