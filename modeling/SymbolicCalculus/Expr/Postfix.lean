/-
Module: SymbolicCalculus.Expr.Postfix
Layer: Expressions
Purpose: Expressions and their postfix order. Writing lists every node after its operands; reading
  builds a tree from the leaves up on a stack of operands, and undoes writing. The depth of every
  operand is kept beside it, so that the limit costs nothing to check.
Trusted boundary: none
Main exports: Expr.toPostfix, Operand, Operand.build, Expr.ofPostfix
-/
import SymbolicCalculus.Fault

namespace SymbolicCalculus

/-- The nodes of an expression, each after its operands. -/
def Expr.toPostfix : Expr → List Token
  | .literal value => [.literal value]
  | .identifier name => [.identifier name]
  | .binary op left right => left.toPostfix ++ right.toPostfix ++ [.operator op]
  | .call f argument => argument.toPostfix ++ [.function f]

/-- An expression that waits to become part of a larger one, with its depth. -/
structure Operand where
  expr : Expr
  depth : Nat
  depth_eq : depth = expr.depth

namespace Operand

/-- Any expression is an operand. -/
def ofExpr (e : Expr) : Operand := ⟨e, e.depth, rfl⟩

@[simp] theorem ofExpr_expr (a : Operand) : ofExpr a.expr = a := by
  rcases a with ⟨e, _, rfl⟩
  rfl

/-- Two operands joined by an operator. -/
def binary (op : BinaryOp) (left right : Operand) : Operand :=
  ⟨.binary op left.expr right.expr, max left.depth right.depth + 1, by
    rw [left.depth_eq, right.depth_eq, Expr.depth]⟩

/-- A function called on an operand. -/
def call (f : ElementaryFunction) (argument : Operand) : Operand :=
  ⟨.call f argument.expr, argument.depth + 1, by rw [argument.depth_eq, Expr.depth]⟩

/-- The operand that a token makes of those before it, the latest first, and the operands left. -/
def build (stack : List Operand) : Token → Except Fault (Operand × List Operand)
  | .literal value => .ok (ofExpr (.literal value), stack)
  | .identifier name => .ok (ofExpr (.identifier name), stack)
  | .function f =>
      match stack with
      | argument :: rest => .ok (call f argument, rest)
      | [] => .error (.missingOperand (.function f))
  | .operator op =>
      match stack with
      | right :: left :: rest => .ok (binary op left right, rest)
      | _ => .error (.missingOperand (.operator op))
  | .openParen | .closeParen => .error .mismatchedParenthesis

/-- Takes one token. No operand may be deeper than the limit. -/
def push (limit : Nat) (stack : List Operand) (token : Token) : Except Fault (List Operand) := do
  let (operand, rest) ← build stack token
  if operand.depth ≤ limit then .ok (operand :: rest) else .error (.nestingTooDeep limit)

/-- The expression that is left at the end, when it is the only one. -/
def finish : List Operand → Except Fault Expr
  | [] => .error .emptyExpression
  | [operand] => .ok operand.expr
  | _ :: dangling :: _ => .error (.danglingOperand dangling.expr)

@[simp] theorem depth_ofExpr (e : Expr) : (ofExpr e).depth = e.depth := rfl

@[simp] theorem binary_ofExpr (op : BinaryOp) (left right : Expr) :
    binary op (ofExpr left) (ofExpr right) = ofExpr (.binary op left right) := rfl

@[simp] theorem call_ofExpr (f : ElementaryFunction) (argument : Expr) :
    call f (ofExpr argument) = ofExpr (.call f argument) := rfl

/-- Within the limit, the postfix order of an expression adds just that expression to the stack. -/
theorem foldlM_push_toPostfix {limit : Nat} {e : Expr} (h : e.depth ≤ limit)
    (stack : List Operand) :
    e.toPostfix.foldlM (push limit) stack = .ok (ofExpr e :: stack) := by
  induction e generalizing stack with
  | literal value => simp [Expr.toPostfix, push, build, bind, Except.bind, pure, Except.pure, h]
  | identifier name => simp [Expr.toPostfix, push, build, bind, Except.bind, pure, Except.pure, h]
  | binary op left right ihl ihr =>
    have hd : max left.depth right.depth + 1 ≤ limit := h
    rw [Expr.toPostfix, List.foldlM_append, List.foldlM_append, ihl (by omega)]
    simp only [bind, Except.bind]
    rw [ihr (by omega)]
    simp [push, build, bind, Except.bind, pure, Except.pure, h]
  | call f argument ih =>
    have hd : argument.depth + 1 ≤ limit := h
    rw [Expr.toPostfix, List.foldlM_append, ih (by omega)]
    simp [push, build, bind, Except.bind, pure, Except.pure, h]

end Operand

/-- The expression that tokens in postfix order describe. -/
def Expr.ofPostfix (limit : Nat) (tokens : List Token) : Except Fault Expr := do
  Operand.finish (← tokens.foldlM (Operand.push limit) [])

/-- Reading undoes writing, within the limit. -/
theorem Expr.ofPostfix_toPostfix {limit : Nat} {e : Expr} (h : e.depth ≤ limit) :
    Expr.ofPostfix limit e.toPostfix = .ok e := by
  rw [Expr.ofPostfix, Operand.foldlM_push_toPostfix h]
  rfl

end SymbolicCalculus
