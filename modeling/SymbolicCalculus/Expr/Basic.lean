/-
Module: SymbolicCalculus.Expr.Basic
Layer: Expressions
Purpose: Expressions as trees. A leaf is a signed 64-bit integer or an identifier; an inner node is
  an infix operation or the call of an elementary function. Plain parentheses leave no node. The
  measures here are the ones limits are stated in: a leaf has depth 1, and a node is one deeper than
  its deepest operand.
Trusted boundary: none
Main exports: Expr, Expr.depth, Expr.mentions, Expr.isAtom
-/
import SymbolicCalculus.Operator
import SymbolicCalculus.ElementaryFunction

namespace SymbolicCalculus

/-- An expression. Identifiers may hold any text; only reading restricts them to letters. -/
inductive Expr where
  | literal (value : Int64)
  | identifier (name : String)
  | binary (op : BinaryOp) (left right : Expr)
  | call (function : ElementaryFunction) (argument : Expr)
deriving DecidableEq, Repr

namespace Expr

/-- The sum of two expressions. -/
@[match_pattern] abbrev sum (left right : Expr) : Expr := .binary .add left right

/-- The difference of two expressions. -/
@[match_pattern] abbrev difference (left right : Expr) : Expr := .binary .subtract left right

/-- The product of two expressions. -/
@[match_pattern] abbrev product (left right : Expr) : Expr := .binary .multiply left right

/-- The quotient of two expressions. -/
@[match_pattern] abbrev quotient (left right : Expr) : Expr := .binary .divide left right

/-- One expression raised to another. -/
@[match_pattern] abbrev power (base exponent : Expr) : Expr := .binary .power base exponent

/-- The number of nodes on the longest way from the root to a leaf. -/
def depth : Expr → Nat
  | .literal _ | .identifier _ => 1
  | .binary _ left right => max left.depth right.depth + 1
  | .call _ argument => argument.depth + 1

/-- Whether an identifier occurs anywhere in an expression. -/
def mentions (name : String) : Expr → Bool
  | .literal _ => false
  | .identifier other => other == name
  | .binary _ left right => left.mentions name || right.mentions name
  | .call _ argument => argument.mentions name

/-- Whether an expression is the given integer. -/
def isLiteral (value : Int64) : Expr → Bool
  | .literal other => other == value
  | _ => false

/-- Whether an expression is the given identifier. -/
def isIdentifier (name : String) : Expr → Bool
  | .identifier other => other == name
  | _ => false

/-- Whether an expression is a leaf. -/
def isAtom : Expr → Bool
  | .literal _ | .identifier _ => true
  | .binary .. | .call .. => false

theorem depth_pos (e : Expr) : 0 < e.depth := by
  cases e <;> simp [depth]

/-- The names of an operation are those of its operands. -/
theorem forall_mentions_binary {p : String → Prop} {op : BinaryOp} {left right : Expr} :
    (∀ name, (binary op left right).mentions name = true → p name) ↔
      (∀ name, left.mentions name = true → p name) ∧
        ∀ name, right.mentions name = true → p name := by
  simp only [mentions, Bool.or_eq_true, or_imp, forall_and]

/-- The names of a call are those of its argument. -/
theorem forall_mentions_call {p : String → Prop} {f : ElementaryFunction} {argument : Expr} :
    (∀ name, (call f argument).mentions name = true → p name) ↔
      ∀ name, argument.mentions name = true → p name :=
  Iff.rfl

@[simp] theorem isLiteral_iff {value : Int64} {e : Expr} :
    e.isLiteral value = true ↔ e = .literal value := by
  cases e <;> simp [isLiteral]

@[simp] theorem isIdentifier_iff {name : String} {e : Expr} :
    e.isIdentifier name = true ↔ e = .identifier name := by
  cases e <;> simp [isIdentifier]

end Expr

end SymbolicCalculus
