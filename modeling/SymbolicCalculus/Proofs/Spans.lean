/-
Module: SymbolicCalculus.Proofs.Spans
Layer: Proofs
Purpose: The conversion to postfix order told span by span. The argument of a function is cut out
  first and converted by itself, with a stack of its own, and the function is put behind it. A span
  keeps only operators and plain parentheses on its stack. Here the conversion has a fallback for
  tokens that none of its rules takes, as a match over all tokens needs one.
Trusted boundary: human-reviewed spec
Main exports: Stop, Span.split, Span.argument, Span.convert, Span.balanced, Span.Fits,
  Span.split_eq_some_iff
-/
import SymbolicCalculus.Fault

namespace SymbolicCalculus

/-- How a computation with fallbacks stops: for a fault, or where none of its rules applies. -/
inductive Stop where
  | fault (fault : Fault)
  | fallback (message : String)
deriving DecidableEq, Repr

namespace Span

/-- The number of parentheses that are open behind a token. -/
def openedBehind (opened : Nat) : Token → Nat
  | .openParen => opened + 1
  | .closeParen => opened - 1
  | .literal _ | .identifier _ | .function _ | .operator _ => opened

/-- The tokens up to the parenthesis that closes the one just opened, when so many further ones are
    open, and the tokens behind it. The count has no bound, like that of `Postfix.closesAfter`. -/
def split (opened : Nat) : List Token → Option (List Token × List Token)
  | [] => none
  | token :: rest =>
      if token = .closeParen ∧ opened = 0 then some ([], rest)
      else do
        let (span, after) ← split (openedBehind opened token) rest
        return (token :: span, after)

/-- The argument of a function, which is not empty, and the tokens behind it. -/
def argument (f : ElementaryFunction) : List Token → Except Fault (List Token × List Token)
  | .openParen :: rest =>
      match split 0 rest with
      | none => .error .mismatchedParenthesis
      | some ([], _) => .error (.emptyArgument f)
      | some (span, after) => .ok (span, after)
  | _ => .error (.missingArgument f)

/-- What is left on the stack at the end of a span, the latest first. -/
def leftover : List Token → Except Fault (List Token)
  | [] => .ok []
  | .openParen :: _ | .closeParen :: _ => .error .mismatchedParenthesis
  | operator :: rest => do
      let later ← leftover rest
      return operator :: later

/-- What is above the latest parenthesis of a stack, and what is below it. -/
def close : List Token → Except Fault (List Token × List Token)
  | [] => .error .mismatchedParenthesis
  | .openParen :: rest => .ok ([], rest)
  | operator :: rest => do
      let (emitted, left) ← close rest
      return (operator :: emitted, left)

/-- Whether a token on the stack is sent off when an operator arrives. -/
def yieldsTo (incoming : BinaryOp) (token : Token) : Bool :=
  match token.operator? with
  | some op => incoming.precedence ≤ op.precedence
  | none => false

theorem length_of_split {opened : Nat} {tokens span after : List Token}
    (h : split opened tokens = some (span, after)) :
    span.length + after.length < tokens.length := by
  induction tokens generalizing opened span with
  | nil => cases h
  | cons token rest ih =>
      rw [split] at h
      split at h
      · cases h
        simp
      · rcases Option.bind_eq_some_iff.mp h with ⟨⟨span', after'⟩, hrest, hspan⟩
        cases hspan
        have hlength := ih hrest
        rw [List.length_cons, List.length_cons]
        omega

theorem length_of_argument {f : ElementaryFunction} {tokens span after : List Token}
    (h : argument f tokens = .ok (span, after)) : span.length + after.length < tokens.length := by
  unfold argument at h
  split at h
  · split at h
    · cases h
    · cases h
    · rename_i hsplit
      cases h
      have hlength := length_of_split hsplit
      rw [List.length_cons]
      omega
  · cases h

mutual

/-- Tokens in postfix order, when they lie in so many arguments. -/
def convert (limit depth : Nat) (tokens : List Token) : Except Stop (List Token) :=
  if limit < depth then .error (.fault (.nestingTooDeep limit))
  else convertRest limit depth [] tokens
termination_by 2 * tokens.length + 1

/-- The rest of a span in postfix order, with the operators and parentheses that wait on its
    stack. -/
def convertRest (limit depth : Nat) (stack tokens : List Token) : Except Stop (List Token) :=
  match tokens with
  | [] => (leftover stack).mapError .fault
  | token :: rest =>
      if token.isValue then do
        let later ← convertRest limit depth stack rest
        return token :: later
      else
        match token with
        | .function f =>
            match _h : argument f rest with
            | .error fault => .error (.fault fault)
            | .ok (span, after) => do
                let converted ← convert limit (depth + 1) span
                let later ← convertRest limit depth stack after
                return converted ++ .function f :: later
        | .openParen => convertRest limit depth (.openParen :: stack) rest
        | .closeParen => do
            let (emitted, left) ← (close stack).mapError .fault
            let later ← convertRest limit depth left rest
            return emitted ++ later
        | _ =>
            match token.operator? with
            | some op => do
                let later ← convertRest limit depth (token :: stack.dropWhile (yieldsTo op)) rest
                return stack.takeWhile (yieldsTo op) ++ later
            | none =>
                .error (.fallback ("Unexpected token " ++ token.text ++ " in infix expression"))
termination_by 2 * tokens.length
decreasing_by
  all_goals simp_wf
  · have hlength := length_of_argument _h
    omega
  · have hlength := length_of_argument _h
    omega

end

variable {limit depth : Nat}

/-! ### Spans and their parentheses -/

/-- Whether tokens close just so many parentheses beside those that they open themselves. -/
def balanced (opened : Nat) : List Token → Bool
  | [] => opened == 0
  | token :: rest =>
      !(token == .closeParen && opened == 0) && balanced (openedBehind opened token) rest

theorem balanced_nil {opened : Nat} : balanced opened [] = true ↔ opened = 0 := beq_iff_eq

theorem balanced_cons {opened : Nat} {token : Token} {rest : List Token} :
    balanced opened (token :: rest) = true ↔
      ¬ (token = .closeParen ∧ opened = 0) ∧ balanced (openedBehind opened token) rest = true := by
  rw [balanced, Bool.and_eq_true, Bool.not_eq_true', Bool.and_eq_false_iff, beq_eq_false_iff_ne,
    beq_eq_false_iff_ne, Decidable.not_and_iff_not_or_not]

/-- A token leaves the parentheses alone that are open further out. -/
theorem openedBehind_add {opened : Nat} {token : Token} (h : ¬ (token = .closeParen ∧ opened = 0))
    (outer : Nat) : openedBehind (opened + outer) token = openedBehind opened token + outer := by
  cases token with
  | closeParen =>
      have hopened : opened ≠ 0 := fun hzero => h ⟨rfl, hzero⟩
      simp only [openedBehind]
      omega
  | openParen => exact Nat.add_right_comm opened outer 1
  | literal _ | identifier _ | function _ | operator _ => rfl

/-- Tokens that close just some of the open parentheses leave the others to what follows them. -/
theorem balanced_append {opened : Nat} {tokens : List Token} (h : balanced opened tokens = true)
    (outer : Nat) (following : List Token) :
    balanced (opened + outer) (tokens ++ following) = true ↔ balanced outer following = true := by
  induction tokens generalizing opened with
  | nil => rw [balanced_nil.mp h, Nat.zero_add, List.nil_append]
  | cons token rest ih =>
      rcases balanced_cons.mp h with ⟨hopen, hrest⟩
      have houter : ¬ (token = .closeParen ∧ opened + outer = 0) :=
        fun hclose => hopen ⟨hclose.1, Nat.eq_zero_of_add_eq_zero_right hclose.2⟩
      rw [List.cons_append, balanced_cons, openedBehind_add hopen, ih hrest]
      exact and_iff_right houter

/-- Tokens before others close just what is open there. Tokens with nothing behind them may close
    less or more. -/
def Fits (tail : List Token) (opened : Nat) (tokens : List Token) : Prop :=
  tail = [] ∨ balanced opened tokens = true

theorem Fits.rest {tail rest : List Token} {opened : Nat} {token : Token}
    (h : Fits tail opened (token :: rest)) : Fits tail (openedBehind opened token) rest :=
  h.imp_right fun hbalanced => (balanced_cons.mp hbalanced).2

/-- A span ends where its own parentheses are closed and one more closes. -/
theorem split_eq_some_iff {opened : Nat} {tokens span after : List Token} :
    split opened tokens = some (span, after) ↔
      tokens = span ++ .closeParen :: after ∧ balanced opened span = true := by
  induction tokens generalizing opened span with
  | nil =>
      constructor
      · intro h
        cases h
      · intro h
        exact absurd h.1.symm (by simp)
  | cons token rest ih =>
      rw [split]
      split
      · rename_i hclose
        cases span with
        | nil =>
            rcases hclose with ⟨rfl, rfl⟩
            constructor
            · intro h
              cases h
              exact ⟨rfl, rfl⟩
            · rintro ⟨htokens, -⟩
              cases htokens
              rfl
        | cons first others =>
            have hfirst : token = first → ¬ balanced opened (first :: others) = true := by
              rintro rfl h
              exact (balanced_cons.mp h).1 hclose
            constructor
            · intro h
              cases h
            · intro h
              exact absurd h.2 (hfirst (List.cons.inj h.1).1)
      · rename_i hopen
        rw [Option.bind_eq_bind, Option.bind_eq_some_iff]
        constructor
        · rintro ⟨⟨span', after'⟩, hrest, hspan⟩
          cases hspan
          rcases ih.mp hrest with ⟨rfl, hbalanced⟩
          exact ⟨rfl, balanced_cons.mpr ⟨hopen, hbalanced⟩⟩
        · rintro ⟨htokens, hbalanced⟩
          cases span with
          | nil => exact absurd ⟨(List.cons.inj htokens).1, balanced_nil.mp hbalanced⟩ hopen
          | cons first others =>
              rcases List.cons.inj htokens with ⟨rfl, hrest⟩
              exact ⟨(others, after), ih.mpr ⟨hrest, (balanced_cons.mp hbalanced).2⟩, rfl⟩

/-- Inside balanced tokens, a parenthesis that is open is closed. -/
theorem exists_of_balanced {first opened : Nat} {tokens : List Token}
    (h : balanced (first + opened + 1) tokens = true) :
    ∃ span after, tokens = span ++ .closeParen :: after ∧ balanced first span = true ∧
      balanced opened after = true := by
  induction tokens generalizing first with
  | nil => cases balanced_nil.mp h
  | cons token rest ih =>
      rcases balanced_cons.mp h with ⟨-, hrest⟩
      by_cases hclose : token = .closeParen ∧ first = 0
      · rcases hclose with ⟨rfl, rfl⟩
        refine ⟨[], rest, rfl, rfl, ?_⟩
        simpa [openedBehind] using hrest
      · rw [Nat.add_assoc, openedBehind_add hclose, ← Nat.add_assoc] at hrest
        rcases ih hrest with ⟨span, after, rfl, hspan, hafter⟩
        exact ⟨token :: span, after, rfl, balanced_cons.mpr ⟨hclose, hspan⟩, hafter⟩

/-- A parenthesis that balanced tokens open is closed by them. -/
theorem exists_of_balanced_openParen {opened : Nat} {rest : List Token}
    (h : balanced opened (.openParen :: rest) = true) :
    ∃ span after, rest = span ++ .closeParen :: after ∧ balanced 0 span = true ∧
      balanced opened after = true := by
  have hrest : balanced (0 + opened + 1) rest = true := by
    rw [Nat.zero_add]
    exact (balanced_cons.mp h).2
  exact exists_of_balanced hrest

/-- The argument of a function stands in the first parentheses behind it. -/
theorem eq_of_argument {f : ElementaryFunction} {tokens span after : List Token}
    (h : argument f tokens = .ok (span, after)) :
    tokens = .openParen :: (span ++ .closeParen :: after) ∧ balanced 0 span = true := by
  unfold argument at h
  split at h
  · split at h
    · cases h
    · cases h
    · rename_i hsplit
      cases h
      rcases split_eq_some_iff.mp hsplit with ⟨rfl, hbalanced⟩
      exact ⟨rfl, hbalanced⟩
  · cases h

/-- An argument is not looked for behind its own span: tokens more at the end are left over. -/
theorem argument_append {opened : Nat} {tokens tail : List Token} (f : ElementaryFunction)
    (hfits : Fits tail opened tokens) (htail : tail.head? ≠ some .openParen) :
    argument f (tokens ++ tail) = do
      let (span, after) ← argument f tokens
      return (span, after ++ tail) := by
  cases tokens with
  | nil =>
      cases tail with
      | nil => rfl
      | cons token rest =>
          cases token with
          | openParen => exact absurd rfl htail
          | literal _ | identifier _ | function _ | operator _ | closeParen => rfl
  | cons token rest =>
      cases token with
      | openParen =>
          rcases hfits with rfl | hbalanced
          · simp only [List.append_nil]
            cases argument f (.openParen :: rest) <;> rfl
          · rcases exists_of_balanced_openParen hbalanced with ⟨span, after, rfl, hspan, -⟩
            rw [List.cons_append, List.append_assoc, List.cons_append, argument, argument,
              split_eq_some_iff.mpr ⟨rfl, hspan⟩, split_eq_some_iff.mpr ⟨rfl, hspan⟩]
            cases span <;> rfl
      | literal _ | identifier _ | function _ | operator _ | closeParen => rfl

/-- What stands behind an argument closes as much as the argument and its function do with it. -/
theorem Fits.after_argument {opened : Nat} {f : ElementaryFunction}
    {tokens span after tail : List Token} (h : Fits tail opened tokens)
    (hargument : argument f tokens = .ok (span, after)) : Fits tail opened after := by
  rcases h with htail | hbalanced
  · exact .inl htail
  · rcases eq_of_argument hargument with ⟨rfl, hspan⟩
    rcases exists_of_balanced_openParen hbalanced with ⟨span', after', htokens, hspan', hafter⟩
    have hparts : some (span, after) = some (span', after') :=
      (split_eq_some_iff.mpr ⟨rfl, hspan⟩).symm.trans (split_eq_some_iff.mpr ⟨htokens, hspan'⟩)
    cases hparts
    exact .inr hafter

/-! ### Stacks of a span -/

section Operators

theorem leftover_operator (op : BinaryOp) (rest : List Token) :
    leftover (.operator op :: rest) = do
      let later ← leftover rest
      return .operator op :: later := rfl

theorem close_operator (op : BinaryOp) (rest : List Token) :
    close (.operator op :: rest) = do
      let (emitted, left) ← close rest
      return (.operator op :: emitted, left) := rfl

variable (ops : List BinaryOp) (below : List Token)

theorem leftover_operators : leftover (ops.map .operator) = .ok (ops.map .operator) := by
  induction ops with
  | nil => rfl
  | cons op rest ih =>
      rw [List.map_cons, leftover_operator, ih]
      rfl

theorem leftover_openParen :
    leftover (ops.map .operator ++ .openParen :: below) = .error .mismatchedParenthesis := by
  induction ops with
  | nil => rfl
  | cons op rest ih =>
      rw [List.map_cons, List.cons_append, leftover_operator, ih]
      rfl

theorem close_operators : close (ops.map .operator) = .error .mismatchedParenthesis := by
  induction ops with
  | nil => rfl
  | cons op rest ih =>
      rw [List.map_cons, close_operator, ih]
      rfl

theorem close_openParen :
    close (ops.map .operator ++ .openParen :: below) = .ok (ops.map .operator, below) := by
  induction ops with
  | nil => rfl
  | cons op rest ih =>
      rw [List.map_cons, List.cons_append, close_operator, ih]
      rfl

end Operators

/-! ### The conversion of a span, token by token -/

section Equations

variable (waiting rest : List Token)

theorem convertRest_value {token : Token} (h : token.isValue = true) :
    convertRest limit depth waiting (token :: rest) = do
      let later ← convertRest limit depth waiting rest
      return token :: later := by
  cases token with
  | literal _ | identifier _ =>
      rw [convertRest]
      · rfl
      all_goals nofun
  | function _ | operator _ | openParen | closeParen => cases h

theorem convertRest_function (f : ElementaryFunction) :
    convertRest limit depth waiting (.function f :: rest) = do
      let (span, after) ← (argument f rest).mapError .fault
      let converted ← convert limit (depth + 1) span
      let later ← convertRest limit depth waiting after
      return converted ++ .function f :: later := by
  rw [convertRest, if_neg (show ¬ (Token.function f).isValue = true from Bool.false_ne_true)]
  split
  · rename_i hargument
    rw [hargument]
    rfl
  · rename_i hargument
    rw [hargument]
    rfl

theorem convertRest_openParen :
    convertRest limit depth waiting (.openParen :: rest) =
      convertRest limit depth (.openParen :: waiting) rest := by
  rw [convertRest]
  rfl

theorem convertRest_closeParen :
    convertRest limit depth waiting (.closeParen :: rest) = do
      let (emitted, left) ← (close waiting).mapError .fault
      let later ← convertRest limit depth left rest
      return emitted ++ later := by
  rw [convertRest]
  rfl

theorem convertRest_operator (op : BinaryOp) :
    convertRest limit depth waiting (.operator op :: rest) = do
      let later ← convertRest limit depth (.operator op :: waiting.dropWhile (yieldsTo op)) rest
      return waiting.takeWhile (yieldsTo op) ++ later := by
  rw [convertRest]
  · rfl
  all_goals nofun

end Equations

end Span

end SymbolicCalculus
