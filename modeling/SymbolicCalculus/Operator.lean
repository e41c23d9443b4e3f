/-
Module: SymbolicCalculus.Operator
Layer: Symbols
Purpose: The five infix operators, with the two facts that reading and writing share: how tightly
  an operator binds, and whether its right operand may regroup to the left. All operators group to
  the left, the power included, so `a ^ b ^ c` is `(a ^ b) ^ c`.
Trusted boundary: none
Main exports: BinaryOp, BinaryOp.precedence, BinaryOp.isAssociative, BinaryOp.symbol, BinaryOp.label
-/

namespace SymbolicCalculus

/-- The infix operators. -/
inductive BinaryOp where
  | add
  | subtract
  | multiply
  | divide
  | power
deriving DecidableEq, Repr

namespace BinaryOp

/-- How tightly an operator binds its operands: sums loosest, powers tightest. -/
def precedence : BinaryOp → Nat
  | .add | .subtract => 2
  | .multiply | .divide => 3
  | .power => 4

/-- Whether a right operand of the same precedence means the same when it is grouped to the left:
    `a + (b - c)` is `(a + b) - c`, and `a * (b / c)` is `(a * b) / c`. -/
def isAssociative : BinaryOp → Bool
  | .add | .multiply => true
  | .subtract | .divide | .power => false

/-- The character that stands for an operator. -/
def symbol : BinaryOp → Char
  | .add => '+'
  | .subtract => '-'
  | .multiply => '*'
  | .divide => '/'
  | .power => '^'

/-- The operator that a character stands for. -/
def ofSymbol? : Char → Option BinaryOp
  | '+' => some .add
  | '-' => some .subtract
  | '*' => some .multiply
  | '/' => some .divide
  | '^' => some .power
  | _ => none

/-- An operator's name in the bracketed form of an expression. -/
def label : BinaryOp → String
  | .add => "Add"
  | .subtract => "Subtract"
  | .multiply => "Multiply"
  | .divide => "Divide"
  | .power => "Exponentiate"

@[simp] theorem ofSymbol?_symbol (op : BinaryOp) : ofSymbol? op.symbol = some op := by
  cases op <;> rfl

/-- Only an operator's own symbol is read as that operator. -/
theorem ofSymbol?_eq_some_iff {c : Char} {op : BinaryOp} :
    ofSymbol? c = some op ↔ c = op.symbol := by
  constructor
  · intro h
    unfold ofSymbol? at h
    split at h <;> simp_all [symbol]
    all_goals subst h; rfl
  · rintro rfl
    exact ofSymbol?_symbol op

end BinaryOp

end SymbolicCalculus
