/-
Module: SymbolicCalculus.Proofs.Grammar
Layer: Proofs
Purpose: What a well-formed expression is, said without a reader. The precedence grammar derives a
  token list together with the tree it stands for; the plain grammar says only which token lists
  are well formed. Both derive the same lists: a plain derivation may split a list at any operator,
  and `Phrase.Derives.extend` finds the place that precedence allows. A third view is local: in a
  well-formed list operands and operators alternate, which two neighbouring tokens decide.
Trusted boundary: human-reviewed spec
Main exports: Phrase, Phrase.Derives, IsInfix, Token.alternate, Phrase.Derives.loosen,
  IsInfix.exists_derives, IsInfix.alternate_append
-/
import SymbolicCalculus.Expr.Basic
import SymbolicCalculus.Token.Basic

namespace SymbolicCalculus

/-- The kinds of phrase, the loosest first. -/
inductive Phrase where
  | sum
  | product
  | power
  | primary
deriving DecidableEq, Repr

namespace Phrase

/-- The kind of phrase that the right operand of an operator has to be, given its own kind. -/
def tighter : Phrase → Phrase
  | .sum => .product
  | .product => .power
  | .power | .primary => .primary

/-- How tightly a phrase binds. A primary binds tighter than any operator. -/
def precedence : Phrase → Nat
  | .sum => 2
  | .product => 3
  | .power => 4
  | .primary => 5

end Phrase

/-- The kind of phrase that an operator forms. -/
def BinaryOp.phrase : BinaryOp → Phrase
  | .add | .subtract => .sum
  | .multiply | .divide => .product
  | .power => .power

@[simp] theorem BinaryOp.precedence_phrase (op : BinaryOp) :
    op.phrase.precedence = op.precedence := by
  cases op <;> rfl

theorem BinaryOp.precedence_lt_tighter (op : BinaryOp) :
    op.precedence < op.phrase.tighter.precedence := by
  cases op <;> decide

theorem Phrase.precedence_le_tighter (phrase : Phrase) :
    phrase.precedence ≤ phrase.tighter.precedence := by
  cases phrase <;> decide

theorem Phrase.sum_le (phrase : Phrase) : Phrase.sum.precedence ≤ phrase.precedence := by
  cases phrase <;> decide

theorem BinaryOp.precedence_lt_primary (op : BinaryOp) :
    op.precedence < Phrase.primary.precedence := by
  cases op <;> decide

/-- A phrase that binds tighter than another binds at least as tightly as the next kind. -/
theorem Phrase.tighter_le_of_lt {phrase tight : Phrase}
    (h : phrase.precedence < tight.precedence) : phrase.tighter.precedence ≤ tight.precedence := by
  revert h
  cases phrase <;> cases tight <;> decide

/-- Phrases of one precedence are of one kind. -/
theorem Phrase.eq_of_precedence {phrase other : Phrase}
    (h : phrase.precedence = other.precedence) : phrase = other := by
  revert h
  cases phrase <;> cases other <;> decide

/-- The precedence grammar: `Derives phrase tokens e` says that the tokens are a phrase of that kind
    and stand for `e`. All operators group to the left, and plain parentheses leave no node. -/
inductive Phrase.Derives : Phrase → List Token → Expr → Prop where
  | literal (value : Int64) : Derives .primary [.literal value] (.literal value)
  | identifier (name : String) : Derives .primary [.identifier name] (.identifier name)
  | call (f : ElementaryFunction) {tokens : List Token} {e : Expr} : Derives .sum tokens e →
      Derives .primary (.function f :: .openParen :: (tokens ++ [.closeParen])) (.call f e)
  | group {tokens : List Token} {e : Expr} : Derives .sum tokens e →
      Derives .primary (.openParen :: (tokens ++ [.closeParen])) e
  | operand {phrase : Phrase} {tokens : List Token} {e : Expr} :
      Derives phrase.tighter tokens e → Derives phrase tokens e
  | operation (op : BinaryOp) {left right : List Token} {a b : Expr} :
      Derives op.phrase left a → Derives op.phrase.tighter right b →
      Derives op.phrase (left ++ .operator op :: right) (.binary op a b)

/-- The plain grammar, in which any operator may stand between any two well-formed lists. -/
inductive IsInfix : List Token → Prop where
  | literal (value : Int64) : IsInfix [.literal value]
  | identifier (name : String) : IsInfix [.identifier name]
  | operation (op : BinaryOp) {left right : List Token} : IsInfix left → IsInfix right →
      IsInfix (left ++ .operator op :: right)
  | group {tokens : List Token} : IsInfix tokens → IsInfix (.openParen :: (tokens ++ [.closeParen]))
  | call (f : ElementaryFunction) {tokens : List Token} : IsInfix tokens →
      IsInfix (.function f :: .openParen :: (tokens ++ [.closeParen]))

/-! ### The two grammars derive the same lists -/

/-- A phrase of any kind is well formed. -/
theorem Phrase.Derives.isInfix {phrase : Phrase} {tokens : List Token} {e : Expr}
    (h : phrase.Derives tokens e) : IsInfix tokens := by
  induction h with
  | literal value => exact .literal value
  | identifier name => exact .identifier name
  | call f _ ih => exact .call f ih
  | group _ ih => exact .group ih
  | operand _ ih => exact ih
  | operation op _ _ ihl ihr => exact .operation op ihl ihr

/-- A primary is a phrase of any kind. -/
theorem Phrase.Derives.of_primary {tokens : List Token} {e : Expr} (phrase : Phrase)
    (h : Phrase.primary.Derives tokens e) : phrase.Derives tokens e := by
  have hpower : Phrase.power.Derives tokens e := .operand h
  have hproduct : Phrase.product.Derives tokens e := .operand hpower
  cases phrase with
  | sum => exact .operand hproduct
  | product => exact hproduct
  | power => exact hpower
  | primary => exact h

/-- A phrase is a phrase of any looser kind. -/
theorem Phrase.Derives.loosen {phrase tight : Phrase} {tokens : List Token} {e : Expr}
    (h : tight.Derives tokens e) (hle : phrase.precedence ≤ tight.precedence) :
    phrase.Derives tokens e := by
  cases tight with
  | primary => exact h.of_primary phrase
  | power =>
      have hproduct : Phrase.product.Derives tokens e := .operand h
      cases phrase with
      | sum => exact .operand hproduct
      | product => exact hproduct
      | power => exact h
      | primary => exact absurd hle (by decide)
  | product =>
      cases phrase with
      | sum => exact .operand h
      | product => exact h
      | power | primary => exact absurd hle (by decide)
  | sum =>
      cases phrase with
      | sum => exact h
      | product | power | primary => exact absurd hle (by decide)

/-- A phrase is extended by an operator and a primary. The operator takes as little of the phrase
    for its left operand as it has to: the induction descends along the right edge until it meets a
    phrase of the operator's own kind. -/
theorem Phrase.Derives.extend {phrase : Phrase} {tokens primary : List Token} {a b : Expr}
    (h : phrase.Derives tokens a) {op : BinaryOp} (hop : phrase.precedence ≤ op.phrase.precedence)
    (hprimary : Phrase.primary.Derives primary b) :
    ∃ e, phrase.Derives (tokens ++ .operator op :: primary) e := by
  have hlt : op.phrase.precedence < Phrase.primary.precedence := by
    rw [op.precedence_phrase]
    exact op.precedence_lt_primary
  induction h with
  | literal value => exact absurd hop (Nat.not_le.mpr hlt)
  | identifier name => exact absurd hop (Nat.not_le.mpr hlt)
  | call f _ _ => exact absurd hop (Nat.not_le.mpr hlt)
  | group _ _ => exact absurd hop (Nat.not_le.mpr hlt)
  | @operand phrase tokens e h ih =>
      by_cases hkind : phrase = op.phrase
      · subst hkind
        exact ⟨_, .operation op (.operand h) (hprimary.of_primary _)⟩
      · have hlt : phrase.precedence < op.phrase.precedence :=
          Nat.lt_of_le_of_ne hop fun heq => hkind (Phrase.eq_of_precedence heq)
        obtain ⟨e', h'⟩ := ih (Phrase.tighter_le_of_lt hlt)
        exact ⟨e', .operand h'⟩
  | @operation op' left right a b hl hr _ ihr =>
      by_cases hkind : op'.phrase = op.phrase
      · have h := Phrase.Derives.operation op' hl hr
        rw [hkind] at h ⊢
        exact ⟨_, .operation op h (hprimary.of_primary _)⟩
      · have hlt : op'.phrase.precedence < op.phrase.precedence :=
          Nat.lt_of_le_of_ne hop fun heq => hkind (Phrase.eq_of_precedence heq)
        obtain ⟨e', h'⟩ := ihr (Phrase.tighter_le_of_lt hlt)
        refine ⟨.binary op' a e', ?_⟩
        rw [List.append_assoc, List.cons_append]
        exact .operation op' hl h'

/-- A well-formed list is a sum, also behind a sum and an operator. The second part is what the
    first needs of its right operand: its primaries are joined to the sum one by one. -/
theorem IsInfix.derives_and_extends {tokens : List Token} (h : IsInfix tokens) :
    (∃ e, Phrase.sum.Derives tokens e) ∧
      ∀ {left : List Token} {a : Expr} (op : BinaryOp), Phrase.sum.Derives left a →
        ∃ e, Phrase.sum.Derives (left ++ .operator op :: tokens) e := by
  induction h with
  | literal value =>
      have hprimary := Phrase.Derives.literal value
      exact ⟨⟨_, hprimary.of_primary _⟩, fun op hl => hl.extend op.phrase.sum_le hprimary⟩
  | identifier name =>
      have hprimary := Phrase.Derives.identifier name
      exact ⟨⟨_, hprimary.of_primary _⟩, fun op hl => hl.extend op.phrase.sum_le hprimary⟩
  | @operation op' left' right' _ _ ihl ihr =>
      constructor
      · obtain ⟨a, ha⟩ := ihl.1
        exact ihr.2 op' ha
      · intro left a op hl
        obtain ⟨e, he⟩ := ihl.2 op hl
        have h := ihr.2 op' he
        rwa [List.append_assoc, List.cons_append] at h
  | group _ ih =>
      obtain ⟨e, he⟩ := ih.1
      have hprimary := Phrase.Derives.group he
      exact ⟨⟨_, hprimary.of_primary _⟩, fun op hl => hl.extend op.phrase.sum_le hprimary⟩
  | call f _ ih =>
      obtain ⟨e, he⟩ := ih.1
      have hprimary := Phrase.Derives.call f he
      exact ⟨⟨_, hprimary.of_primary _⟩, fun op hl => hl.extend op.phrase.sum_le hprimary⟩

/-- Every well-formed list stands for some expression. -/
theorem IsInfix.exists_derives {tokens : List Token} (h : IsInfix tokens) :
    ∃ e, Phrase.sum.Derives tokens e :=
  h.derives_and_extends.1

/-! ### Operands and operators alternate -/

namespace Token

/-- Whether an operand can begin with a token. -/
def startsOperand : Token → Bool
  | .literal _ | .identifier _ | .function _ | .openParen => true
  | .operator _ | .closeParen => false

/-- Whether an operand can end with a token. -/
def endsOperand : Token → Bool
  | .literal _ | .identifier _ | .closeParen => true
  | .function _ | .operator _ | .openParen => false

/-- Whether every token stands where its kind may stand: an operand begins exactly where one is due,
    which is at the beginning and after each token that ends none, and none is due at the end. -/
def alternate : (operandDue : Bool) → List Token → Bool
  | operandDue, [] => !operandDue
  | operandDue, token :: rest =>
      token.startsOperand == operandDue && alternate (!token.endsOperand) rest

@[simp] theorem alternate_cons {operandDue : Bool} {token : Token} {rest : List Token} :
    alternate operandDue (token :: rest) = true ↔
      token.startsOperand = operandDue ∧ alternate (!token.endsOperand) rest = true := by
  simp [alternate]

end Token

/-- A well-formed list begins where an operand is due and leaves none due behind it. -/
theorem IsInfix.alternate_append {tokens : List Token} (h : IsInfix tokens) (rest : List Token) :
    Token.alternate true (tokens ++ rest) = Token.alternate false rest := by
  induction h generalizing rest with
  | literal value => rfl
  | identifier name => rfl
  | operation op _ _ ihl ihr =>
      rw [List.append_assoc, ihl, List.cons_append]
      exact ihr rest
  | group _ ih =>
      rw [List.cons_append, List.append_assoc]
      exact ih (.closeParen :: rest)
  | call f _ ih =>
      rw [List.cons_append, List.cons_append, List.append_assoc]
      exact ih (.closeParen :: rest)

/-- In a well-formed list operands and operators alternate. -/
theorem IsInfix.alternate {tokens : List Token} (h : IsInfix tokens) :
    Token.alternate true tokens = true := by
  have hrest := h.alternate_append []
  rwa [List.append_nil] at hrest

/-- Where no operand is due behind a list, one ends with its last token. -/
theorem Token.endsOperand_getLast {operandDue : Bool} {tokens : List Token}
    (h : alternate operandDue tokens = true) :
    ∀ last ∈ tokens.getLast?, last.endsOperand = true := by
  induction tokens generalizing operandDue with
  | nil => simp
  | cons token rest ih =>
      have hrest := (alternate_cons.mp h).2
      cases rest with
      | nil => simpa [alternate] using hrest
      | cons next rest =>
          rw [List.getLast?_cons_cons]
          exact ih hrest

/-- A well-formed list has a first token, and an operand begins with it. -/
theorem IsInfix.exists_cons {tokens : List Token} (h : IsInfix tokens) :
    ∃ token rest, tokens = token :: rest ∧ token.startsOperand = true := by
  have halternate := h.alternate
  cases tokens with
  | nil => simp [Token.alternate] at halternate
  | cons token rest => exact ⟨token, rest, rfl, (Token.alternate_cons.mp halternate).1⟩

end SymbolicCalculus
