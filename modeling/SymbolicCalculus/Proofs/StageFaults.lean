/-
Module: SymbolicCalculus.Proofs.StageFaults
Layer: Proofs
Purpose: Which faults each stage can come to. Cutting a text, putting tokens in postfix order,
  building a tree and differentiating it each have a few kinds of fault of their own, and a fault
  about nesting always names the limit that was given. Every kind is traced back from the whole
  stage to the one step that fails; a fault of a run is a fault of one of its steps.
Trusted boundary: human-reviewed spec
Main exports: Fault.OfCutting, Fault.OfReordering, Fault.OfBuilding, Fault.OfDifferentiating,
  Token.ofCutting_of_tokenize, Postfix.ofReordering_of_ofInfix, Expr.ofBuilding_of_ofPostfix,
  Expr.ofDifferentiating_of_derivative
-/
import SymbolicCalculus.Proofs.Lexing
import SymbolicCalculus.Proofs.VisitedNodes

namespace SymbolicCalculus

namespace Fault

/-- The faults of cutting a text into tokens. -/
inductive OfCutting : Fault → Prop where
  | unexpectedCharacter (c : Char) (position : Nat) : OfCutting (.unexpectedCharacter c position)
  | literalOutOfRange (literal : String) : OfCutting (.literalOutOfRange literal)

/-- The faults of putting tokens in postfix order under a limit. -/
inductive OfReordering (limit : Nat) : Fault → Prop where
  | mismatchedParenthesis : OfReordering limit .mismatchedParenthesis
  | missingArgument (f : ElementaryFunction) : OfReordering limit (.missingArgument f)
  | emptyArgument (f : ElementaryFunction) : OfReordering limit (.emptyArgument f)
  | nestingTooDeep : OfReordering limit (.nestingTooDeep limit)

/-- The faults of building a tree from tokens under a limit. A parenthesis can be at fault only
    where there is one. -/
inductive OfBuilding (limit : Nat) (tokens : List Token) : Fault → Prop where
  | missingOperand (operator : Token) : OfBuilding limit tokens (.missingOperand operator)
  | danglingOperand (operand : Expr) : OfBuilding limit tokens (.danglingOperand operand)
  | emptyExpression : OfBuilding limit tokens .emptyExpression
  | nestingTooDeep : OfBuilding limit tokens (.nestingTooDeep limit)
  | mismatchedParenthesis {token : Token} : token ∈ tokens → token.isParenthesis = true →
      OfBuilding limit tokens .mismatchedParenthesis

/-- The faults of differentiating under the given settings. -/
inductive OfDifferentiating (settings : Settings) : Fault → Prop where
  | nestingTooDeep : OfDifferentiating settings (.nestingTooDeep settings.maxDepth)
  | literalOutOfRange (literal : String) : OfDifferentiating settings (.literalOutOfRange literal)
  | unsupportedPower (power : Expr) : settings.unsupportedPowers = .reject →
      OfDifferentiating settings (.unsupportedPower power)

/-- What is at fault in some of the tokens is at fault among all of them. -/
theorem OfBuilding.mono {limit : Nat} {part tokens : List Token} {fault : Fault}
    (h : OfBuilding limit part fault) (hpart : ∀ token ∈ part, token ∈ tokens) :
    OfBuilding limit tokens fault := by
  cases h with
  | missingOperand operator => exact .missingOperand operator
  | danglingOperand operand => exact .danglingOperand operand
  | emptyExpression => exact .emptyExpression
  | nestingTooDeep => exact .nestingTooDeep
  | mismatchedParenthesis hmem hparenthesis =>
      exact .mismatchedParenthesis (hpart _ hmem) hparenthesis

end Fault

variable {fault : Fault}

namespace Token

/-! ### Cutting a text -/

theorem ofCutting_of_ofLexeme {position : Nat} {lexeme : List Char}
    (h : ofLexeme position lexeme = .error fault) : fault.OfCutting := by
  obtain ⟨c, rest, -, ⟨-, -, rfl⟩ | ⟨-, -, -, rfl⟩⟩ := fault_of_ofLexeme h
  · exact .literalOutOfRange _
  · exact .unexpectedCharacter c position

/-- A text fails to be cut at a character or at a number. -/
theorem ofCutting_of_tokenize {text : String} (h : tokenize text = .error fault) :
    fault.OfCutting := by
  obtain ⟨earlier, lexeme, later, tokens, -, -, hlexeme⟩ := exists_of_ofLexemes h
  exact ofCutting_of_ofLexeme hlexeme

end Token

namespace Postfix

/-! ### Putting tokens in postfix order -/

variable {limit : Nat} {stack : List Pending}

theorem ofReordering_of_checkCall {f : ElementaryFunction} {following : List Token}
    (h : checkCall limit stack f following = .error fault) : fault.OfReordering limit := by
  unfold checkCall at h
  split at h
  · split at h
    · cases h
      exact .mismatchedParenthesis
    · split at h
      · cases h
        exact .emptyArgument f
      · split at h
        · cases h
          exact .nestingTooDeep
        · cases h
  · cases h
    exact .missingArgument f

theorem eq_mismatchedParenthesis_of_closeGroup (h : closeGroup stack = .error fault) :
    fault = .mismatchedParenthesis := by
  unfold closeGroup at h
  split at h
  · cases h
  · cases h
    rfl

theorem eq_mismatchedParenthesis_of_finish (h : finish stack = .error fault) :
    fault = .mismatchedParenthesis := by
  rw [finish] at h
  split at h
  · cases h
  · cases h
    rfl

/-- A step fails at a function or at a closing parenthesis. -/
theorem ofReordering_of_step {token : Token} {following : List Token}
    (h : step limit stack token following = .error fault) : fault.OfReordering limit := by
  cases token with
  | literal value => cases h
  | identifier name => cases h
  | function f =>
      rcases except_bind_eq_error_iff.mp h with hcheck | ⟨_, -, hnone⟩
      · exact ofReordering_of_checkCall hcheck
      · cases hnone
  | operator op => cases h
  | openParen => cases h
  | closeParen =>
      rw [eq_mismatchedParenthesis_of_closeGroup h]
      exact .mismatchedParenthesis

theorem ofReordering_of_run {tokens : List Token} (h : run limit stack tokens = .error fault) :
    fault.OfReordering limit := by
  induction tokens generalizing stack with
  | nil =>
      rw [eq_mismatchedParenthesis_of_finish h]
      exact .mismatchedParenthesis
  | cons token rest ih =>
      rw [run] at h
      rcases except_bind_eq_error_iff.mp h with hstep | ⟨⟨emitted, left⟩, -, hrest⟩
      · exact ofReordering_of_step hstep
      · rcases except_bind_eq_error_iff.mp hrest with hlater | ⟨later, -, hnone⟩
        · exact ih hlater
        · cases hnone

/-- Tokens fail to be put in postfix order for a parenthesis, for a call, or for the limit. -/
theorem ofReordering_of_ofInfix {tokens : List Token} (h : ofInfix limit tokens = .error fault) :
    fault.OfReordering limit :=
  ofReordering_of_run h

end Postfix

namespace Operand

/-! ### Building a tree -/

variable {limit : Nat} {stack : List Operand} {token : Token}

/-- A token fails to make an operand when it is a parenthesis or is missing one. -/
theorem of_build (h : build stack token = .error fault) :
    fault = .missingOperand token ∨
      fault = .mismatchedParenthesis ∧ token.isParenthesis = true := by
  cases token with
  | literal value => cases h
  | identifier name => cases h
  | function f =>
      cases stack with
      | nil =>
          cases h
          exact .inl rfl
      | cons argument rest => cases h
  | operator op =>
      cases stack with
      | nil =>
          cases h
          exact .inl rfl
      | cons right rest =>
          cases rest with
          | nil =>
              cases h
              exact .inl rfl
          | cons left rest => cases h
  | openParen =>
      cases h
      exact .inr ⟨rfl, rfl⟩
  | closeParen =>
      cases h
      exact .inr ⟨rfl, rfl⟩

theorem ofBuilding_of_push (h : push limit stack token = .error fault) :
    fault.OfBuilding limit [token] := by
  rcases except_bind_eq_error_iff.mp h with hbuild | ⟨⟨operand, rest⟩, -, hdepth⟩
  · rcases of_build hbuild with rfl | ⟨rfl, hparenthesis⟩
    · exact .missingOperand token
    · exact .mismatchedParenthesis List.mem_cons_self hparenthesis
  · dsimp only at hdepth
    split at hdepth
    · cases hdepth
    · cases hdepth
      exact .nestingTooDeep

theorem ofBuilding_of_foldlM_push {tokens : List Token}
    (h : tokens.foldlM (push limit) stack = .error fault) : fault.OfBuilding limit tokens := by
  induction tokens generalizing stack with
  | nil => cases h
  | cons token rest ih =>
      rw [List.foldlM_cons] at h
      rcases except_bind_eq_error_iff.mp h with hpush | ⟨middle, -, hrest⟩
      · exact (ofBuilding_of_push hpush).mono (by simp)
      · exact (ih hrest).mono fun token => List.mem_cons_of_mem _

theorem of_finish (h : finish stack = .error fault) :
    fault = .emptyExpression ∨ ∃ operand, fault = .danglingOperand operand := by
  match stack, h with
  | [], h =>
      cases h
      exact .inl rfl
  | [_], h => cases h
  | _ :: dangling :: _, h =>
      cases h
      exact .inr ⟨dangling.expr, rfl⟩

end Operand

namespace Expr

/-- A tree fails to be built for an operand too few or too many, for the limit, or for a parenthesis
    among its tokens. -/
theorem ofBuilding_of_ofPostfix {limit : Nat} {tokens : List Token}
    (h : ofPostfix limit tokens = .error fault) : fault.OfBuilding limit tokens := by
  rcases except_bind_eq_error_iff.mp h with hrun | ⟨stack, -, hfinish⟩
  · exact Operand.ofBuilding_of_foldlM_push hrun
  · rcases Operand.of_finish hfinish with rfl | ⟨operand, rfl⟩
    · exact .emptyExpression
    · exact .danglingOperand operand

/-- Without a parenthesis among its tokens, a tree never fails to be built for one. -/
theorem ne_mismatchedParenthesis_of_ofPostfix {limit : Nat} {tokens : List Token}
    (htokens : ∀ token ∈ tokens, token.isParenthesis = false)
    (h : ofPostfix limit tokens = .error fault) : fault ≠ .mismatchedParenthesis := by
  cases ofBuilding_of_ofPostfix h with
  | mismatchedParenthesis hmem hparenthesis =>
      rw [htokens _ hmem] at hparenthesis
      cases hparenthesis
  | missingOperand _ | danglingOperand _ | emptyExpression | nestingTooDeep => nofun

/-! ### Differentiating a tree -/

variable {settings : Settings}

/-- What is wrong with a power is its exponent, or that it has no rule and none is made up. -/
theorem of_powerOffence {base exponent : Expr}
    (h : powerOffence settings base exponent = some fault) :
    (∃ literal, fault = .literalOutOfRange literal) ∨
      settings.unsupportedPowers = .reject ∧ fault = .unsupportedPower (.power base exponent) := by
  unfold powerOffence at h
  split at h
  · split at h
    · cases h
      exact .inl ⟨_, rfl⟩
    · cases h
  · cases h
  · cases h
  · split at h
    · rename_i hpolicy
      cases h
      exact .inr ⟨hpolicy, rfl⟩
    · cases h

theorem ofDifferentiating_of_offence {visit : Visit} (h : visit.offence settings = some fault) :
    fault.OfDifferentiating settings := by
  rw [Visit.offence] at h
  split at h
  · cases h
    exact .nestingTooDeep
  · split at h
    · rcases of_powerOffence h with ⟨literal, rfl⟩ | ⟨hpolicy, rfl⟩
      · exact .literalOutOfRange literal
      · exact .unsupportedPower _ hpolicy
    all_goals cases h

/-- A tree fails to be differentiated for the limit, or at a power. -/
theorem ofDifferentiating_of_derivative {e : Expr}
    (h : (e.derivative settings).outcome = .error fault) : fault.OfDifferentiating settings := by
  obtain ⟨visit, -, hvisit⟩ := exists_offence_of_derivative h
  exact ofDifferentiating_of_offence hvisit

end Expr

end SymbolicCalculus
