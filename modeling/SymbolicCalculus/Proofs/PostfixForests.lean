/-
Module: SymbolicCalculus.Proofs.PostfixForests
Layer: Proofs
Purpose: What tokens in postfix order come to, for every list of tokens. As long as the tokens are
  the postfix orders of some trees, one behind the other, the stack holds just these trees; the
  trees are determined, as the run is. At the end there has to be one. A token that no trees take
  up is refused: for being a parenthesis, for the operands that it needs and that are not there, or
  else for the limit.
Trusted boundary: human-reviewed spec
Main exports: IsForest, BreaksAt, Token.arity, Token.refusal, Operand.foldlM_push_eq_ok_iff,
  Operand.eq_refusal_of_push, ofPostfix_by_forest
-/
import SymbolicCalculus.Proofs.PostfixTrees

namespace SymbolicCalculus

/-- The tokens are the postfix orders of the trees, one behind the other, and no tree is deeper than
    the limit. -/
def IsForest (limit : Nat) (trees : List Expr) (tokens : List Token) : Prop :=
  tokens = trees.flatMap Expr.toPostfix ∧ ∀ e ∈ trees, e.depth ≤ limit

/-- The first tokens of a list that are no forest are those of `before` and then `token`: all that
    is shorter is one. -/
def BreaksAt (limit : Nat) (tokens before : List Token) (token : Token) : Prop :=
  before ++ [token] <+: tokens ∧ (¬ ∃ trees, IsForest limit trees (before ++ [token])) ∧
    ∀ part, part <+: before → ∃ trees, IsForest limit trees part

namespace Token

/-- How many of the trees before it a token takes for its operands. -/
def arity : Token → Nat
  | .function _ => 1
  | .operator _ => 2
  | .literal _ | .identifier _ | .openParen | .closeParen => 0

/-- What is wrong with a token that can not follow so many trees. -/
def refusal (limit count : Nat) (token : Token) : Fault :=
  if token.isParenthesis then .mismatchedParenthesis
  else if count < token.arity then .missingOperand token
  else .nestingTooDeep limit

theorem refusal_of_arity_le {limit count : Nat} {token : Token}
    (hparenthesis : token.isParenthesis = false) (hcount : token.arity ≤ count) :
    token.refusal limit count = .nestingTooDeep limit := by
  rw [refusal, hparenthesis, if_neg Bool.false_ne_true, if_neg (Nat.not_lt.mpr hcount)]

end Token

namespace Operand

variable {limit : Nat} {stack stack' : List Operand} {token : Token} {tokens : List Token}
  {trees : List Expr}

/-- The stack that holds the given trees, the last one on top. -/
def stackOf (trees : List Expr) : List Operand :=
  (trees.map ofExpr).reverse

theorem stackOf_cons (e : Expr) (trees : List Expr) :
    stackOf (e :: trees) = stackOf trees ++ [ofExpr e] := by
  rw [stackOf, List.map_cons, List.reverse_cons, stackOf]

/-- Every stack holds some trees. -/
theorem stackOf_map_expr (stack : List Operand) : stackOf (stack.reverse.map (·.expr)) = stack := by
  simp [stackOf, List.map_map, Function.comp_def]

/-- The trees of a stack can be read off it. -/
theorem map_expr_stackOf (trees : List Expr) : (stackOf trees).reverse.map (·.expr) = trees := by
  simp [stackOf, List.map_map, Function.comp_def, ofExpr]

/-! ### Forests and stacks -/

/-- A forest puts just its trees on the stack. -/
theorem foldlM_push_forest (h : ∀ e ∈ trees, e.depth ≤ limit) (stack : List Operand) :
    (trees.flatMap Expr.toPostfix).foldlM (push limit) stack = .ok (stackOf trees ++ stack) := by
  induction trees generalizing stack with
  | nil => rfl
  | cons e rest ih =>
      rw [List.flatMap_cons, List.foldlM_append, foldlM_push_toPostfix (h e List.mem_cons_self),
        except_ok_bind, ih fun e he => h e (List.mem_cons_of_mem _ he), stackOf_cons,
        List.append_assoc, List.singleton_append]

/-- Nothing is left on the stack that was not there. -/
theorem subset_of_build {operand : Operand} {rest : List Operand}
    (h : build stack token = .ok (operand, rest)) : rest ⊆ stack := by
  cases token with
  | literal value =>
      cases h
      exact List.Subset.refl _
  | identifier name =>
      cases h
      exact List.Subset.refl _
  | function f =>
      match stack, h with
      | argument :: rest, h =>
          cases h
          exact List.subset_cons_self _ _
  | operator op =>
      match stack, h with
      | right :: left :: rest, h =>
          cases h
          exact List.subset_cons_of_subset _ (List.subset_cons_self _ _)
  | openParen => cases h
  | closeParen => cases h

/-- A step keeps every operand within the limit. -/
theorem depth_le_of_push (h : push limit stack token = .ok stack')
    (hstack : ∀ operand ∈ stack, operand.depth ≤ limit) :
    ∀ operand ∈ stack', operand.depth ≤ limit := by
  rcases except_bind_eq_ok_iff.mp h with ⟨⟨built, rest⟩, hbuild, h⟩
  dsimp only at h
  split at h
  · rename_i hdepth
    cases h
    exact List.forall_mem_cons.mpr
      ⟨hdepth, fun operand hmem => hstack operand (subset_of_build hbuild hmem)⟩
  · cases h

/-- A run keeps every operand within the limit. -/
theorem depth_le_of_foldlM_push (h : tokens.foldlM (push limit) stack = .ok stack')
    (hstack : ∀ operand ∈ stack, operand.depth ≤ limit) :
    ∀ operand ∈ stack', operand.depth ≤ limit := by
  induction tokens generalizing stack with
  | nil =>
      cases h
      exact hstack
  | cons token rest ih =>
      rw [List.foldlM_cons] at h
      rcases except_bind_eq_ok_iff.mp h with ⟨middle, hpush, hrest⟩
      exact ih hrest (depth_le_of_push hpush hstack)

/-- A run comes to a stack exactly when its tokens are a forest, and then to the stack of it. -/
theorem foldlM_push_eq_ok_iff :
    tokens.foldlM (push limit) [] = .ok stack ↔
      ∃ trees, IsForest limit trees tokens ∧ stack = stackOf trees := by
  constructor
  · intro h
    refine ⟨stack.reverse.map (·.expr), ⟨?_, ?_⟩, (stackOf_map_expr stack).symm⟩
    · have hwritten := (written_foldlM_push h).1
      rw [written_nil, List.nil_append] at hwritten
      rw [← hwritten, written, List.flatMap_map]
    · intro e he
      rcases List.mem_map.mp he with ⟨operand, hmem, rfl⟩
      rw [← operand.depth_eq]
      exact depth_le_of_foldlM_push h (List.forall_mem_nil _) operand (List.mem_reverse.mp hmem)
  · rintro ⟨trees, ⟨rfl, hdepth⟩, rfl⟩
    rw [foldlM_push_forest hdepth, List.append_nil]

theorem foldlM_push_of_isForest (h : IsForest limit trees tokens) :
    tokens.foldlM (push limit) [] = .ok (stackOf trees) :=
  foldlM_push_eq_ok_iff.mpr ⟨trees, h, rfl⟩

/-! ### The token that is refused -/

/-- A token is refused for being a parenthesis, for too few operands, or for the limit. -/
theorem eq_refusal_of_push {fault : Fault} (h : push limit stack token = .error fault) :
    fault = token.refusal limit stack.length := by
  -- once its operand is built, a token can only be too deep
  have hdeep : ∀ built : Operand × List Operand, build stack token = .ok built →
      token.isParenthesis = false → token.arity ≤ stack.length →
      fault = token.refusal limit stack.length := by
    intro built hbuild hparenthesis hcount
    rw [Token.refusal_of_arity_le hparenthesis hcount]
    rw [push, hbuild, except_ok_bind] at h
    split at h
    split at h
    · cases h
    · cases h
      rfl
  cases token with
  | literal value => exact hdeep _ rfl rfl (Nat.zero_le _)
  | identifier name => exact hdeep _ rfl rfl (Nat.zero_le _)
  | function f =>
      rcases stack with _ | ⟨argument, rest⟩
      · cases h
        rfl
      · exact hdeep _ rfl rfl (Nat.le_add_left 1 _)
  | operator op =>
      rcases stack with _ | ⟨right, _ | ⟨left, rest⟩⟩
      · cases h
        rfl
      · cases h
        rfl
      · exact hdeep _ rfl rfl (Nat.le_add_left 2 _)
  | openParen =>
      cases h
      rfl
  | closeParen =>
      cases h
      rfl

/-- A run that fails does so at one token, behind a part that it takes. -/
theorem exists_of_foldlM_push {fault : Fault}
    (h : tokens.foldlM (push limit) stack = .error fault) :
    ∃ before token behind middle, tokens = before ++ token :: behind ∧
      before.foldlM (push limit) stack = .ok middle ∧ push limit middle token = .error fault := by
  induction tokens generalizing stack with
  | nil => cases h
  | cons token rest ih =>
      rw [List.foldlM_cons] at h
      rcases except_bind_eq_error_iff.mp h with hpush | ⟨middle, hpush, hrest⟩
      · exact ⟨[], token, rest, stack, rfl, rfl, hpush⟩
      · rcases ih hrest with ⟨before, token', behind, last, rfl, hbefore, hlast⟩
        refine ⟨token :: before, token', behind, last, rfl, ?_, hlast⟩
        rw [List.foldlM_cons, hpush, except_ok_bind, hbefore]

end Operand

/-! ### Every list of tokens -/

section Forests

variable {limit : Nat} {tokens : List Token}

/-- What comes first in a forest is a forest: the run takes it. -/
theorem IsForest.exists_of_prefix {trees : List Expr} {part : List Token}
    (h : IsForest limit trees tokens) (hpart : part <+: tokens) :
    ∃ trees', IsForest limit trees' part := by
  rcases hpart with ⟨behind, rfl⟩
  have hrun := Operand.foldlM_push_of_isForest h
  rw [List.foldlM_append] at hrun
  rcases except_bind_eq_ok_iff.mp hrun with ⟨middle, hmiddle, -⟩
  rcases Operand.foldlM_push_eq_ok_iff.mp hmiddle with ⟨trees', hforest, -⟩
  exact ⟨trees', hforest⟩

/-- The trees of a forest are determined by its tokens, as they are what the run leaves. -/
theorem IsForest.unique {trees trees' : List Expr} (h : IsForest limit trees tokens)
    (h' : IsForest limit trees' tokens) : trees = trees' := by
  have hstack : Operand.stackOf trees = Operand.stackOf trees' :=
    Except.ok.inj ((Operand.foldlM_push_of_isForest h).symm.trans
      (Operand.foldlM_push_of_isForest h'))
  rw [← Operand.map_expr_stackOf trees, hstack, Operand.map_expr_stackOf]

/-- Tokens that are no forest break off at one of them. -/
theorem exists_breaksAt (h : ¬ ∃ trees, IsForest limit trees tokens) :
    ∃ before token, BreaksAt limit tokens before token := by
  cases hrun : tokens.foldlM (Operand.push limit) [] with
  | ok stack =>
      rcases Operand.foldlM_push_eq_ok_iff.mp hrun with ⟨trees, hforest, -⟩
      exact absurd ⟨trees, hforest⟩ h
  | error fault =>
      rcases Operand.exists_of_foldlM_push hrun with
        ⟨before, token, behind, middle, rfl, hbefore, hpush⟩
      rcases Operand.foldlM_push_eq_ok_iff.mp hbefore with ⟨trees, hforest, -⟩
      refine ⟨before, token, ⟨behind, by simp⟩, ?_, fun part => hforest.exists_of_prefix⟩
      rintro ⟨trees', hforest'⟩
      have hlonger := Operand.foldlM_push_of_isForest hforest'
      rw [List.foldlM_append, hbefore, except_ok_bind, List.foldlM_cons, hpush] at hlonger
      cases hlonger

/-- Where tokens break off, they are refused for the token there. -/
theorem BreaksAt.ofPostfix_eq {before : List Token} {token : Token} {trees : List Expr}
    (h : BreaksAt limit tokens before token) (hbefore : IsForest limit trees before) :
    Expr.ofPostfix limit tokens = .error (token.refusal limit trees.length) := by
  rcases h with ⟨⟨behind, rfl⟩, hlonger, -⟩
  have hrun := Operand.foldlM_push_of_isForest hbefore
  have hpush : Operand.push limit (Operand.stackOf trees) token =
      .error (token.refusal limit trees.length) := by
    cases hstep : Operand.push limit (Operand.stackOf trees) token with
    | ok stack =>
        have hone : (before ++ [token]).foldlM (Operand.push limit) [] = .ok stack := by
          rw [List.foldlM_append, hrun, except_ok_bind, List.foldlM_cons, hstep]
          rfl
        rcases Operand.foldlM_push_eq_ok_iff.mp hone with ⟨trees', hforest, -⟩
        exact absurd ⟨trees', hforest⟩ hlonger
    | error fault =>
        rw [Operand.eq_refusal_of_push hstep, Operand.stackOf, List.length_reverse, List.length_map]
  rw [Expr.ofPostfix, List.append_assoc, List.singleton_append, List.foldlM_append, hrun,
    except_ok_bind, List.foldlM_cons, hpush]
  rfl

/-- A forest comes to what its stack comes to. -/
theorem IsForest.ofPostfix_eq {trees : List Expr} (h : IsForest limit trees tokens) :
    Expr.ofPostfix limit tokens = Operand.finish (Operand.stackOf trees) := by
  rw [Expr.ofPostfix, Operand.foldlM_push_of_isForest h, except_ok_bind]

end Forests

/-- What any tokens in postfix order come to. If they are the trees of a forest, these are
    determined: there has to be one, and of several the last but one is left over. Otherwise the
    tokens break off at one of them, which is refused for being a parenthesis, for too few trees
    before it, or for the limit. So a tree is read from its own postfix order only. -/
theorem ofPostfix_by_forest (limit : Nat) (tokens : List Token) :
    (∀ trees trees', IsForest limit trees tokens → IsForest limit trees' tokens →
      trees = trees') ∧
    (IsForest limit [] tokens → Expr.ofPostfix limit tokens = .error .emptyExpression) ∧
    (∀ e, IsForest limit [e] tokens → Expr.ofPostfix limit tokens = .ok e) ∧
    (∀ trees e last, IsForest limit (trees ++ [e, last]) tokens →
      Expr.ofPostfix limit tokens = .error (.danglingOperand e)) ∧
    ((¬ ∃ trees, IsForest limit trees tokens) →
      ∃ before token, BreaksAt limit tokens before token) ∧
    (∀ before token trees, BreaksAt limit tokens before token → IsForest limit trees before →
      Expr.ofPostfix limit tokens = .error (token.refusal limit trees.length)) ∧
    ∀ e, Expr.ofPostfix limit tokens = .ok e ↔ tokens = e.toPostfix ∧ e.depth ≤ limit := by
  refine ⟨fun _ _ => IsForest.unique, IsForest.ofPostfix_eq, fun _ => IsForest.ofPostfix_eq, ?_,
    exists_breaksAt, fun _ _ _ => BreaksAt.ofPostfix_eq, ?_⟩
  · intro trees e last h
    rw [h.ofPostfix_eq, Operand.stackOf, List.map_append, List.reverse_append]
    rfl
  · intro e
    constructor
    · exact Expr.toPostfix_of_ofPostfix
    · rintro ⟨rfl, hdepth⟩
      exact Expr.ofPostfix_toPostfix hdepth

/-- `x y + 2`, where nothing connects the sum and the number. -/
def unconnectedTokens : List Token :=
  [.identifier "x", .identifier "y", .operator .add, .literal 2]

/-- `x sin + y`, where the sum has one operand before it. -/
def brokenTokens : List Token :=
  [.identifier "x", .function .sin, .operator .add, .identifier "y"]

/-- The sum is where the tokens break off. -/
theorem breaksAt_broken :
    BreaksAt 2 brokenTokens [.identifier "x", .function .sin] (.operator .add) := by
  have hbefore : IsForest 2 [.call .sin (.identifier "x")] [.identifier "x", .function .sin] :=
    ⟨rfl, by decide⟩
  refine ⟨⟨[.identifier "y"], rfl⟩, ?_, fun part hpart => hbefore.exists_of_prefix hpart⟩
  rintro ⟨trees, hforest⟩
  cases Operand.foldlM_push_of_isForest hforest

theorem ofPostfix_by_forest_unconnected :
    IsForest 2 ([] ++ [.sum (.identifier "x") (.identifier "y"), .literal 2]) unconnectedTokens ∧
      Expr.ofPostfix 2 unconnectedTokens =
        .error (.danglingOperand (.sum (.identifier "x") (.identifier "y"))) ∧
      BreaksAt 2 brokenTokens [.identifier "x", .function .sin] (.operator .add) ∧
      IsForest 2 [.call .sin (.identifier "x")] [.identifier "x", .function .sin] ∧
      Expr.ofPostfix 2 brokenTokens = .error (.missingOperand (.operator .add)) ∧
      ¬ ∃ trees, IsForest 2 trees brokenTokens := by
  rcases ofPostfix_by_forest 2 unconnectedTokens with ⟨-, -, -, hdangling, -⟩
  rcases ofPostfix_by_forest 2 brokenTokens with ⟨-, -, -, -, -, hrefused, -⟩
  have htwo : IsForest 2 ([] ++ [.sum (.identifier "x") (.identifier "y"), .literal 2])
      unconnectedTokens := ⟨rfl, by decide⟩
  have hbefore : IsForest 2 [.call .sin (.identifier "x")] [.identifier "x", .function .sin] :=
    ⟨rfl, by decide⟩
  refine ⟨htwo, hdangling _ _ _ htwo, breaksAt_broken, hbefore,
    hrefused _ _ _ breaksAt_broken hbefore, ?_⟩
  rintro ⟨trees, hforest⟩
  exact breaksAt_broken.2.1 (hforest.exists_of_prefix breaksAt_broken.1)

end SymbolicCalculus
