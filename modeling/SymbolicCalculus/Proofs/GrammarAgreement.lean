/-
Module: SymbolicCalculus.Proofs.GrammarAgreement
Layer: Proofs
Purpose: Reading agrees with the precedence grammar. The conversion is followed along a derivation:
  a phrase is read on top of any stack that admits it, emits part of its postfix order, and leaves
  the rest as operators that bind at least as tightly as the phrase. Nothing below them moves. The
  conversion refuses such tokens only for calls that nest too deep, and the tree only for its
  depth; calls never nest deeper than the tree is, so one limit decides.
Trusted boundary: none
Main exports: Expr.callNesting, Postfix.Reads, Postfix.reads_of_derives,
  Postfix.ofInfix_of_derives, Expr.outcome_parse_of_derives, Expr.outcome_parse_eq_ok_iff,
  outcome_parse_eq, Expr.outcome_read
-/
import SymbolicCalculus.Proofs.Conversion
import SymbolicCalculus.Proofs.PostfixTrees

namespace SymbolicCalculus

/-- The number of calls that lie in one another at the deepest place. -/
def Expr.callNesting : Expr → Nat
  | .literal _ | .identifier _ => 0
  | .binary _ left right => max left.callNesting right.callNesting
  | .call _ argument => argument.callNesting + 1

/-- Each call around a leaf is a level of the tree. -/
theorem Expr.callNesting_lt_depth (e : Expr) : e.callNesting < e.depth := by
  induction e with
  | literal value => exact Nat.zero_lt_one
  | identifier name => exact Nat.zero_lt_one
  | binary op left right ihl ihr =>
      rw [callNesting, depth]
      omega
  | call f argument ih =>
      rw [callNesting, depth]
      omega

namespace Postfix

/-! ### Parentheses of a well-formed list -/

/-- A well-formed list closes its own parentheses and no others. -/
theorem closesAfter_append {tokens : List Token} (h : IsInfix tokens) (inner : Nat)
    (rest : List Token) : closesAfter inner (tokens ++ rest) = closesAfter inner rest := by
  induction h generalizing inner rest with
  | literal value => simp [closesAfter]
  | identifier name => simp [closesAfter]
  | operation op _ _ ihl ihr =>
      rw [List.append_assoc, ihl, List.cons_append, closesAfter, ihr]
      all_goals simp
  | group _ ih =>
      rw [List.cons_append, List.append_assoc, closesAfter, ih]
      rfl
  | call f _ ih =>
      rw [List.cons_append, List.cons_append, List.append_assoc, closesAfter, closesAfter, ih]
      · rfl
      all_goals simp

/-- The call of a function on a well-formed argument passes the check unless it lies in too many
    arguments. -/
theorem checkCall_of_isInfix {tokens : List Token} (h : IsInfix tokens) (limit : Nat)
    (stack : List Pending) (f : ElementaryFunction) (following : List Token) :
    checkCall limit stack f (.openParen :: (tokens ++ [.closeParen]) ++ following) =
      if limit ≤ callDepth stack then .error (.nestingTooDeep limit) else .ok () := by
  rw [List.cons_append, List.append_assoc, List.singleton_append]
  have hcloses : closesAfter 0 (tokens ++ .closeParen :: following) = true := by
    rw [closesAfter_append h]
    rfl
  have hhead : (tokens ++ .closeParen :: following).head? ≠ some .closeParen := by
    obtain ⟨token, tail, rfl, hstarts⟩ := h.exists_cons
    intro heq
    obtain rfl : token = .closeParen := by simpa using heq
    simp [Token.startsOperand] at hstarts
  exact checkCall_openParen hcloses hhead limit stack f

/-! ### Following a derivation -/

/-- The tokens, with `following` behind them, are read on top of the stack as a phrase that stands
    for `e`: what they emit and the operators they leave are together the postfix order of `e`, and
    the operators bind at least as tightly as the phrase. -/
def Reads (limit : Nat) (stack : List Pending) (following tokens : List Token) (phrase : Phrase)
    (e : Expr) : Prop :=
  ∃ (emitted : List Token) (ops : List BinaryOp),
    advance limit stack following tokens = .ok (emitted, ops.map .operator ++ stack) ∧
      (∀ op ∈ ops, phrase.precedence ≤ op.precedence) ∧
      emitted ++ ops.map .operator = e.toPostfix

variable {limit : Nat} {stack : List Pending} {following : List Token}

theorem reads_operand {phrase : Phrase} {tokens : List Token} {e : Expr}
    (h : Reads limit stack following tokens phrase.tighter e) :
    Reads limit stack following tokens phrase e := by
  obtain ⟨emitted, ops, hrun, hops, hwritten⟩ := h
  exact ⟨emitted, ops, hrun,
    fun op hop => Nat.le_trans phrase.precedence_le_tighter (hops op hop), hwritten⟩

/-- The operators that a phrase in parentheses leaves are sent off when it closes. -/
theorem reads_group {phrase : Phrase} {tokens : List Token} {e : Expr}
    (hstack : ∀ top ∈ stack.head?, top.admits phrase = true)
    (h : Reads limit (.openParen :: stack) (.closeParen :: following) tokens .sum e) :
    Reads limit stack following (.openParen :: (tokens ++ [.closeParen])) .primary e := by
  obtain ⟨emitted, ops, hrun, -, hwritten⟩ := h
  have hopen : step limit stack .openParen (tokens ++ [.closeParen] ++ following) =
      .ok ([], .openParen :: stack) := rfl
  have hclose : advance limit (ops.map .operator ++ .openParen :: stack) following [.closeParen] =
      .ok (ops.map .operator, stack) := by
    rw [advance_singleton, step_closeParen, closeCall_of_admits hstack, List.append_nil]
  have hrest := advance_cons_of_ok hopen (advance_append_of_ok hrun hclose)
  exact ⟨emitted ++ ops.map .operator, [], hrest, by simp, by simpa using hwritten⟩

/-- A function waits below the parenthesis of its argument, and is sent off after the argument. -/
theorem reads_call {f : ElementaryFunction} {tokens : List Token} {e : Expr}
    (hcheck : checkCall limit stack f (.openParen :: (tokens ++ [.closeParen]) ++ following) =
      .ok ())
    (h : Reads limit (.openParen :: .function f :: stack) (.closeParen :: following) tokens .sum
      e) :
    Reads limit stack following (.function f :: .openParen :: (tokens ++ [.closeParen])) .primary
      (.call f e) := by
  obtain ⟨emitted, ops, hrun, -, hwritten⟩ := h
  have hopen : step limit (.function f :: stack) .openParen (tokens ++ [.closeParen] ++ following) =
      .ok ([], .openParen :: .function f :: stack) := rfl
  have hclose : advance limit (ops.map .operator ++ .openParen :: .function f :: stack) following
      [.closeParen] = .ok (ops.map .operator ++ [.function f], stack) := by
    rw [advance_singleton, step_closeParen, closeCall]
  have hrest := advance_cons_of_ok (step_function hcheck)
    (advance_cons_of_ok hopen (advance_append_of_ok hrun hclose))
  refine ⟨emitted ++ (ops.map .operator ++ [.function f]), [], hrest, by simp, ?_⟩
  simp [Expr.toPostfix, ← hwritten]

/-- An operator sends off what its left operand leaves and waits below its right operand. -/
theorem reads_operation {op : BinaryOp} {left right : List Token} {a b : Expr}
    (hstack : ∀ top ∈ stack.head?, top.admits op.phrase = true)
    (hl : Reads limit stack (.operator op :: right ++ following) left op.phrase a)
    (hr : Reads limit (.operator op :: stack) following right op.phrase.tighter b) :
    Reads limit stack following (left ++ .operator op :: right) op.phrase (.binary op a b) := by
  obtain ⟨emitted, ops, hrun, hops, hwritten⟩ := hl
  obtain ⟨emitted', ops', hrun', hops', hwritten'⟩ := hr
  rw [BinaryOp.precedence_phrase] at hops
  refine ⟨emitted ++ (ops.map .operator ++ emitted'), ops' ++ [op], ?_, ?_, ?_⟩
  · rw [List.map_append, List.append_assoc]
    apply advance_append_of_ok hrun
    exact advance_cons_of_ok (step_operator hops hstack (right ++ following)) hrun'
  · intro o ho
    rw [BinaryOp.precedence_phrase]
    rcases List.mem_append.mp ho with ho | ho
    · exact Nat.le_trans (Nat.le_of_lt op.precedence_lt_tighter) (hops' o ho)
    · exact Nat.le_of_eq (by rw [List.mem_singleton.mp ho])
  · simp [Expr.toPostfix, ← hwritten, ← hwritten']

/-- A phrase is read on top of a stack that admits it, as long as its calls do not nest too deep. -/
theorem reads_of_derives {phrase : Phrase} {tokens : List Token} {e : Expr}
    (h : phrase.Derives tokens e) (hstack : ∀ top ∈ stack.head?, top.admits phrase = true)
    (hlimit : callDepth stack + e.callNesting ≤ limit) :
    Reads limit stack following tokens phrase e := by
  induction h generalizing stack following with
  | literal value => exact ⟨[.literal value], [], rfl, by simp, rfl⟩
  | identifier name => exact ⟨[.identifier name], [], rfl, by simp, rfl⟩
  | @call f tokens e h ih =>
      have hlimit : callDepth stack + (e.callNesting + 1) ≤ limit := hlimit
      apply reads_call
      · rw [checkCall_of_isInfix h.isInfix, if_neg (by omega)]
      · apply ih
        · simp [Pending.admits]
        · rw [callDepth_openParen, callDepth_function]
          omega
  | group h ih =>
      apply reads_group hstack
      apply ih
      · simp [Pending.admits]
      · rwa [callDepth_openParen]
  | operand h ih =>
      exact reads_operand (ih (fun top htop => Pending.admits_tighter (hstack top htop)) hlimit)
  | @operation op left right a b hl hr ihl ihr =>
      have hlimit : callDepth stack + max a.callNesting b.callNesting ≤ limit := hlimit
      apply reads_operation hstack
      · exact ihl hstack (by omega)
      · apply ihr
        · simpa [Pending.admits] using op.precedence_lt_tighter
        · rw [callDepth_operator]
          omega

/-- A phrase whose calls nest too deep is refused for that. What comes before the first call that
    lies too deep is read as usual. -/
theorem advance_of_derives_of_lt {phrase : Phrase} {tokens : List Token} {e : Expr}
    (h : phrase.Derives tokens e) (hstack : ∀ top ∈ stack.head?, top.admits phrase = true)
    (hdepth : callDepth stack ≤ limit) (hlimit : limit < callDepth stack + e.callNesting) :
    advance limit stack following tokens = .error (.nestingTooDeep limit) := by
  induction h generalizing stack following with
  | literal value => exact absurd hlimit (Nat.not_lt.mpr hdepth)
  | identifier name => exact absurd hlimit (Nat.not_lt.mpr hdepth)
  | @call f tokens e h ih =>
      have hlimit : limit < callDepth stack + (e.callNesting + 1) := hlimit
      have hcheck := checkCall_of_isInfix h.isInfix limit stack f following
      by_cases hlt : limit ≤ callDepth stack
      · rw [if_pos hlt] at hcheck
        exact advance_cons_of_error (step_function_of_error hcheck)
      · rw [if_neg hlt] at hcheck
        apply advance_cons_of_ok_of_error (step_function hcheck)
        apply advance_cons_of_ok_of_error rfl
        apply advance_append_of_error
        apply ih
        · simp [Pending.admits]
        · rw [callDepth_openParen, callDepth_function]
          omega
        · rw [callDepth_openParen, callDepth_function]
          omega
  | group h ih =>
      apply advance_cons_of_ok_of_error rfl
      apply advance_append_of_error
      apply ih
      · simp [Pending.admits]
      · rwa [callDepth_openParen]
      · rwa [callDepth_openParen]
  | operand h ih =>
      exact ih (fun top htop => Pending.admits_tighter (hstack top htop)) hdepth hlimit
  | @operation op left right a b hl hr ihl ihr =>
      have hlimit : limit < callDepth stack + max a.callNesting b.callNesting := hlimit
      by_cases hleft : limit < callDepth stack + a.callNesting
      · exact advance_append_of_error (ihl hstack hdepth hleft)
      · have hreads : Reads limit stack (.operator op :: right ++ following) left op.phrase a :=
          reads_of_derives hl hstack (Nat.le_of_not_lt hleft)
        obtain ⟨emitted, ops, hrun, hops, -⟩ := hreads
        rw [BinaryOp.precedence_phrase] at hops
        apply advance_append_of_ok_of_error hrun
        apply advance_cons_of_ok_of_error (step_operator hops hstack (right ++ following))
        apply ihr
        · simpa [Pending.admits] using op.precedence_lt_tighter
        · rwa [callDepth_operator]
        · rw [callDepth_operator]
          omega

/-! ### Whole lists -/

/-- A derivable list is put into the postfix order of its tree. -/
theorem ofInfix_of_derives {tokens : List Token} {e : Expr} (h : Phrase.sum.Derives tokens e)
    (hlimit : e.callNesting ≤ limit) : ofInfix limit tokens = .ok e.toPostfix := by
  have hreads : Reads limit [] [] tokens .sum e :=
    reads_of_derives h (by simp) (by simpa [callDepth] using hlimit)
  obtain ⟨emitted, ops, hrun, -, hwritten⟩ := hreads
  rw [List.append_nil] at hrun
  rw [ofInfix_of_advance hrun, hwritten]

/-- A derivable list with calls that nest too deep is refused for that. -/
theorem ofInfix_of_derives_of_lt {tokens : List Token} {e : Expr}
    (h : Phrase.sum.Derives tokens e) (hlimit : limit < e.callNesting) :
    ofInfix limit tokens = .error (.nestingTooDeep limit) := by
  rw [ofInfix_eq, advance_of_derives_of_lt h (by simp) (by simp [callDepth])
    (by simpa [callDepth] using hlimit), except_error_bind]

end Postfix

/-- The record of a conversion does not bear on how it comes out. -/
theorem Postfix.outcome_reorder (limit : Nat) (tokens : List Token) :
    (Postfix.reorder limit tokens).outcome = Postfix.ofInfix limit tokens := by
  rw [Postfix.reorder, Logged.outcome_bind, Logged.outcome_lift]
  exact bind_pure (Postfix.ofInfix limit tokens)

/-- Reading tokens is a conversion and then the building of a tree. -/
theorem Expr.outcome_parse (limit : Nat) (tokens : List Token) :
    (Expr.parse limit tokens).outcome = Postfix.ofInfix limit tokens >>= Expr.ofPostfix limit := by
  simp [Expr.parse, Postfix.reorder]

/-- A text in postfix order is cut into tokens, and these are converted. -/
theorem Postfix.outcome_read (limit : Nat) (text : String) :
    (Postfix.read limit text).outcome = Token.tokenize text >>= Postfix.ofInfix limit := by
  rw [Postfix.read, Logged.outcome_bind, Logged.outcome_lift]
  exact bind_congr fun tokens => Postfix.outcome_reorder limit tokens

/-- A text is cut into tokens and these are read, and what fails says which text it was. -/
theorem Expr.outcome_read (limit : Nat) (text : String) :
    (Expr.read limit text).outcome =
      (Token.tokenize text).mapError (.reading text) >>= fun tokens =>
        (Expr.parse limit tokens).outcome.mapError (.parsing text) := by
  rw [Expr.read, Logged.outcome_bind]
  rfl

/-- Behind what a failure says of the text, reading builds the tree of the text's postfix order. -/
theorem Expr.mapError_fault_outcome_read (limit : Nat) (text : String) :
    (Expr.read limit text).outcome.mapError Failure.fault =
      (Postfix.read limit text).outcome >>= Expr.ofPostfix limit := by
  rw [outcome_read, Postfix.outcome_read]
  cases Token.tokenize text with
  | error fault => rfl
  | ok tokens =>
      show ((parse limit tokens).outcome.mapError (Failure.parsing text)).mapError Failure.fault =
        Postfix.ofInfix limit tokens >>= ofPostfix limit
      rw [outcome_parse]
      cases Postfix.ofInfix limit tokens >>= ofPostfix limit <;> rfl

/-- Tokens are read as an expression exactly when they are put into its postfix order, and it is
    within the limit. -/
theorem Expr.outcome_parse_eq_ok_iff_ofInfix {limit : Nat} {tokens : List Token} {e : Expr} :
    (Expr.parse limit tokens).outcome = .ok e ↔
      Postfix.ofInfix limit tokens = .ok e.toPostfix ∧ e.depth ≤ limit := by
  rw [outcome_parse, except_bind_eq_ok_iff]
  constructor
  · intro h
    rcases h with ⟨output, houtput, hbuild⟩
    rcases toPostfix_of_ofPostfix hbuild with ⟨rfl, hdepth⟩
    exact ⟨houtput, hdepth⟩
  · intro h
    exact ⟨e.toPostfix, h.1, ofPostfix_toPostfix h.2⟩

/-- A derivable list within the limit is read as its tree. -/
theorem Expr.outcome_parse_of_derives {limit : Nat} {tokens : List Token} {e : Expr}
    (h : Phrase.sum.Derives tokens e) (hlimit : e.depth ≤ limit) :
    (Expr.parse limit tokens).outcome = .ok e := by
  have hcalls : e.callNesting ≤ limit :=
    Nat.le_of_lt (Nat.lt_of_lt_of_le e.callNesting_lt_depth hlimit)
  rw [outcome_parse, Postfix.ofInfix_of_derives h hcalls, except_ok_bind,
    ofPostfix_toPostfix hlimit]

/-- A derivable list beyond the limit is refused for its depth. -/
theorem Expr.outcome_parse_of_derives_of_lt {limit : Nat} {tokens : List Token} {e : Expr}
    (h : Phrase.sum.Derives tokens e) (hlimit : limit < e.depth) :
    (Expr.parse limit tokens).outcome = .error (.nestingTooDeep limit) := by
  rw [outcome_parse]
  by_cases hcalls : e.callNesting ≤ limit
  · rw [Postfix.ofInfix_of_derives h hcalls, except_ok_bind, ofPostfix_toPostfix_of_lt hlimit]
  · rw [Postfix.ofInfix_of_derives_of_lt h (Nat.lt_of_not_le hcalls), except_error_bind]

/-- A derivable list is read as its tree and as nothing else, and only within the limit. -/
theorem Expr.outcome_parse_eq_ok_iff {limit : Nat} {tokens : List Token} {e result : Expr}
    (h : Phrase.sum.Derives tokens e) :
    (Expr.parse limit tokens).outcome = .ok result ↔ e.depth ≤ limit ∧ result = e := by
  constructor
  · intro hparse
    by_cases hlimit : e.depth ≤ limit
    · rw [outcome_parse_of_derives h hlimit] at hparse
      cases hparse
      exact ⟨hlimit, rfl⟩
    · rw [outcome_parse_of_derives_of_lt h (Nat.lt_of_not_le hlimit)] at hparse
      cases hparse
  · intro hresult
    rcases hresult with ⟨hlimit, rfl⟩
    exact outcome_parse_of_derives h hlimit

/-- The precedence grammar is what is read: a derivable list gives its tree, or is refused when the
    tree is deeper than the limit. -/
theorem outcome_parse_eq {tokens : List Token} {e : Expr} (h : Phrase.sum.Derives tokens e)
    (limit : Nat) :
    (Expr.parse limit tokens).outcome =
      if e.depth ≤ limit then .ok e else .error (.nestingTooDeep limit) := by
  split
  · rename_i hlimit
    exact Expr.outcome_parse_of_derives h hlimit
  · rename_i hlimit
    exact Expr.outcome_parse_of_derives_of_lt h (Nat.lt_of_not_le hlimit)

/-- `((x + 1)) * sin(x ^ 2 ^ y)` -/
def groupedTokens : List Token :=
  [.openParen, .openParen, .identifier "x", .operator .add, .literal 1, .closeParen, .closeParen,
    .operator .multiply, .function .sin, .openParen, .identifier "x", .operator .power, .literal 2,
    .operator .power, .identifier "y", .closeParen]

/-- The tree of `((x + 1)) * sin(x ^ 2 ^ y)`, which has five levels. -/
def groupedExpr : Expr :=
  .product (.sum (.identifier "x") (.literal 1))
    (.call .sin (.power (.power (.identifier "x") (.literal 2)) (.identifier "y")))

theorem derives_grouped : Phrase.sum.Derives groupedTokens groupedExpr := by
  have hx := Phrase.Derives.identifier "x"
  have hsum := Phrase.Derives.operation .add (hx.of_primary .sum)
    ((Phrase.Derives.literal 1).of_primary .product)
  have hsquare := Phrase.Derives.operation .power (hx.of_primary .power) (.literal 2)
  have hpower := Phrase.Derives.operation .power hsquare (.identifier "y")
  have hproduct : Phrase.product.Derives _ _ := .operand hpower
  have hcall := Phrase.Derives.call .sin (.operand hproduct)
  exact .operand (.operation .multiply ((Phrase.Derives.group
    ((Phrase.Derives.group hsum).of_primary .sum)).of_primary .product) (hcall.of_primary .power))

theorem outcome_parse_grouped :
    Phrase.sum.Derives groupedTokens groupedExpr ∧
      (Expr.parse 5 groupedTokens).outcome = .ok groupedExpr ∧
      (Expr.parse 4 groupedTokens).outcome = .error (.nestingTooDeep 4) :=
  ⟨derives_grouped, outcome_parse_eq derives_grouped 5, outcome_parse_eq derives_grouped 4⟩

end SymbolicCalculus
