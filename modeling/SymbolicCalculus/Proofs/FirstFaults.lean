/-
Module: SymbolicCalculus.Proofs.FirstFaults
Layer: Proofs
Purpose: Which tokens the conversion to postfix order accepts, and what it says of the others. Each
  token is faulty or not by itself, for what stands around it: a function for its argument, a
  closing parenthesis for the one it would close. The conversion fails with the leftmost faulty
  token. If there is none it fails only for a parenthesis that is never closed, and only at the end.
  A run is followed from left to right. For as long as no token was faulty, its stack tells which
  parentheses are open, and which of them belong to functions.
Trusted boundary: human-reviewed spec
Main exports: Place, Place.fault, firstFault, Around, Reached, Reached.step, Reached.run,
  outcome_reorder_by_first_fault
-/
import SymbolicCalculus.Proofs.Parentheses

namespace SymbolicCalculus

/-- A token of a list, with what stands before it and behind it. -/
structure Place where
  before : List Token
  token : Token
  behind : List Token

/-- The places of tokens that stand behind others, from left to right. -/
def places (before : List Token) : List Token → List Place
  | [] => []
  | token :: rest => ⟨before, token, rest⟩ :: places (before ++ [token]) rest

/-- What is wrong with a function, for what stands before it and behind it: it has no parenthesis,
    its parenthesis is not closed, nothing stands in it, or the function lies in too many
    arguments. -/
def callFault (limit : Nat) (before : List Token) (f : ElementaryFunction)
    (behind : List Token) : Option Fault :=
  match behind with
  | .openParen :: argument =>
      if ¬ IsClosed argument then some .mismatchedParenthesis
      else if argument.head? = some .closeParen then some (.emptyArgument f)
      else if limit ≤ argumentsAround before (.function f :: behind) then
        some (.nestingTooDeep limit)
      else none
  | _ => some (.missingArgument f)

/-- What is wrong with a token where it stands. Only functions and closing parentheses can be
    faulty. -/
def Place.fault (limit : Nat) (place : Place) : Option Fault :=
  match place.token with
  | .function f => callFault limit place.before f place.behind
  | .closeParen => if IsOpened place.before then none else some .mismatchedParenthesis
  | .literal _ | .identifier _ | .operator _ | .openParen => none

/-- What is wrong with the leftmost faulty token. -/
def firstFault (limit : Nat) (tokens : List Token) : Option Fault :=
  (places [] tokens).findSome? (Place.fault limit)

variable {limit : Nat} {stack base : List Pending} {token : Token}
  {outside inside part before following rest : List Token}

/-! ### What the stack tells -/

/-- Tokens that leave no parenthesis open, and no function without its own. -/
structure Settled (part : List Token) : Prop where
  balanced : Span.balanced 0 part = true
  getLast?_ne : ∀ f, part.getLast? ≠ some (.function f)

/-- The tokens up to an open parenthesis that is the innermost one, or none at all, and what stands
    behind it, beside what waits there. -/
inductive Around : (outside inside : List Token) → (base : List Pending) → Prop where
  | whole {inside : List Token} : Around [] inside []
  | group {outside part inside : List Token} {base : List Pending} (ops : List BinaryOp)
      (h : Around outside (part ++ .openParen :: inside) base) (hpart : Settled part) :
      Around (outside ++ part ++ [.openParen]) inside (.openParen :: (ops.map .operator ++ base))
  | call {outside part inside : List Token} {base : List Pending} (f : ElementaryFunction)
      (ops : List BinaryOp) (h : Around outside (part ++ .function f :: .openParen :: inside) base)
      (hpart : Settled part) (hclosed : IsClosed inside) :
      Around (outside ++ part ++ [.function f, .openParen]) inside
        (.openParen :: .function f :: (ops.map .operator ++ base))

/-- What waits when the tokens before were taken and none of them was faulty: operators above the
    innermost open parenthesis, or a function that is about to have its own. -/
inductive Reached : (before following : List Token) → (stack : List Pending) → Prop where
  | settled {outside part following : List Token} {base : List Pending} (ops : List BinaryOp)
      (h : Around outside (part ++ following) base) (hpart : Settled part) :
      Reached (outside ++ part) following (ops.map .operator ++ base)
  | named {outside part inside : List Token} {base : List Pending} (f : ElementaryFunction)
      (ops : List BinaryOp) (h : Around outside (part ++ .function f :: .openParen :: inside) base)
      (hpart : Settled part) (hclosed : IsClosed inside) :
      Reached (outside ++ part ++ [.function f]) (.openParen :: inside)
        (.function f :: (ops.map .operator ++ base))

namespace Settled

theorem nil : Settled [] := ⟨rfl, by simp⟩

theorem concat (h : Settled part) (hparen : token.isParenthesis = false)
    (hfunction : ∀ f, token ≠ .function f) : Settled (part ++ [token]) := by
  constructor
  · apply (Span.balanced_append h.balanced 0 [token]).mpr
    cases token with
    | literal _ | identifier _ | function _ | operator _ => rfl
    | openParen | closeParen => cases hparen
  · simpa using hfunction

/-- A parenthesis that closes leaves nothing open that it opened. -/
theorem append_group (h : Settled part) (hinside : Settled inside) {opening : List Token}
    (hopening : Span.balanced 0 opening = true) :
    Settled (part ++ opening ++ .openParen :: (inside ++ [.closeParen])) := by
  constructor
  · have hgroup : Span.balanced 0 (.openParen :: (inside ++ [.closeParen])) = true :=
      Span.balanced_cons.mpr ⟨by simp, (Span.balanced_append hinside.balanced 1 _).mpr rfl⟩
    have hbefore := (Span.balanced_append h.balanced 0 opening).mpr hopening
    exact (Span.balanced_append hbefore 0 _).mpr hgroup
  · intro f
    rw [List.getLast?_append, List.getLast?_cons, List.getLast?_concat]
    simp

theorem closesAfter (h : Settled part) (opened : Nat) :
    Postfix.closesAfter opened part = false := by
  have hcloses := closesAfter_of_balanced h.balanced opened
  rwa [Nat.zero_add] at hcloses

end Settled

namespace Around

/-- Either nothing is open, or the innermost parenthesis waits on top. -/
theorem eq_nil_or_exists (h : Around outside inside base) :
    outside = [] ∧ base = [] ∨
      ∃ outer below, outside = outer ++ [.openParen] ∧ base = .openParen :: below := by
  cases h with
  | whole => exact .inl ⟨rfl, rfl⟩
  | @group outer part _ below ops _ _ => exact .inr ⟨outer ++ part, _, rfl, rfl⟩
  | @call outer part _ below f ops _ _ _ =>
      exact .inr ⟨outer ++ part ++ [.function f], _, by simp, rfl⟩

theorem head?_base (h : Around outside inside base) : ∀ top ∈ base.head?, top = .openParen := by
  intro top htop
  rcases h.eq_nil_or_exists with ⟨-, rfl⟩ | ⟨outer, below, -, rfl⟩
  · cases htop
  · cases htop
    rfl

theorem getLast?_ne (h : Around outside inside base) (hpart : Settled part) :
    ∀ f, (outside ++ part).getLast? ≠ some (.function f) := by
  intro f
  rw [List.getLast?_append]
  cases hlast : part.getLast? with
  | some last =>
      rw [Option.some_or, ← hlast]
      exact hpart.getLast?_ne f
  | none =>
      rcases h.eq_nil_or_exists with ⟨rfl, -⟩ | ⟨outer, below, rfl, -⟩
      · simp
      · simp

/-- Settled tokens add no argument to those around. -/
theorem argumentsAround_append (h : Around outside inside base) (hpart : Settled part)
    (following : List Token) :
    argumentsAround (outside ++ part) following = argumentsAround outside (part ++ following) := by
  have hlast := h.getLast?_ne .nil
  rw [List.append_nil] at hlast
  rw [SymbolicCalculus.argumentsAround_append hlast hpart.closesAfter,
    argumentsAround_of_balanced hpart.balanced, Nat.add_zero]

/-- Operators are no functions. -/
theorem callDepth_operators (ops : List BinaryOp) (base : List Pending) :
    Postfix.callDepth (ops.map .operator ++ base) = Postfix.callDepth base := by
  apply Span.callDepth_append
  intro top htop
  rcases List.mem_map.mp htop with ⟨op, -, rfl⟩
  rfl

/-- As many functions wait as have an argument around what follows. -/
theorem callDepth_eq (h : Around outside inside base) :
    Postfix.callDepth base = argumentsAround outside inside := by
  induction h with
  | whole => rfl
  | @group outside part inside base ops h hpart ih =>
      have hopening : ∀ opened, Postfix.closesAfter opened [.openParen] = false := by
        intro opened
        cases opened <;> rfl
      rw [SymbolicCalculus.argumentsAround_append (h.getLast?_ne hpart) hopening,
        List.singleton_append, h.argumentsAround_append hpart, ← ih, Postfix.callDepth_openParen,
        callDepth_operators]
      rfl
  | @call outside part inside base f ops h hpart hclosed ih =>
      have hopening : ∀ opened, Postfix.closesAfter opened [.function f, .openParen] = false := by
        intro opened
        cases opened <;> rfl
      rw [SymbolicCalculus.argumentsAround_append (h.getLast?_ne hpart) hopening,
        argumentsAround_opening f hclosed, List.cons_append, List.singleton_append,
        h.argumentsAround_append hpart, ← ih, Postfix.callDepth_openParen,
        Postfix.callDepth_function, callDepth_operators]

end Around

/-! ### One step -/

/-- A call is checked as what stands around its function says. -/
theorem Postfix.checkCall_eq_callFault {f : ElementaryFunction}
    (hdepth : callDepth stack = argumentsAround before (.function f :: following)) :
    checkCall limit stack f following =
      (callFault limit before f following).elim (.ok ()) .error := by
  cases following with
  | nil => rfl
  | cons token rest =>
      cases token with
      | openParen =>
          rw [checkCall, callFault, hdepth]
          simp only [isClosed_iff, Bool.not_eq_true]
          split
          · rfl
          · split
            · rfl
            · split
              · rfl
              · rfl
      | literal _ | identifier _ | function _ | operator _ | closeParen => rfl

namespace Reached

/-- What a step does at a place: it fails as the place says, or the place is not faulty and the step
    goes on. -/
def Steps (limit : Nat) (stack : List Pending) (place : Place) : Prop :=
  (∃ fault, place.fault limit = some fault ∧
      Postfix.step limit stack place.token place.behind = .error fault) ∨
    ∃ emitted left, place.fault limit = none ∧
      Postfix.step limit stack place.token place.behind = .ok (emitted, left) ∧
      Reached (place.before ++ [place.token]) place.behind left

/-- A token that is no parenthesis and no function stands with those before it. -/
theorem concat (h : Around outside (part ++ token :: rest) base) (hpart : Settled part)
    (hparen : token.isParenthesis = false) (hfunction : ∀ f, token ≠ .function f)
    (ops : List BinaryOp) :
    Reached (outside ++ part ++ [token]) rest (ops.map .operator ++ base) := by
  rw [List.append_cons] at h
  rw [List.append_assoc]
  exact .settled ops h (hpart.concat hparen hfunction)

/-- Behind a parenthesis that has just opened nothing stands yet. -/
theorem opened (h : Around outside inside base) : Reached outside inside base := by
  have hreached := Reached.settled [] h .nil
  rwa [List.append_nil] at hreached

/-- A group that is closed stands with the tokens before it. -/
theorem closed (opening : List Token)
    (h : Around outside (part ++ opening ++ .openParen :: (inside ++ .closeParen :: rest)) base)
    (hpart : Settled part) (hopening : Span.balanced 0 opening = true) (hinside : Settled inside)
    (ops : List BinaryOp) :
    Reached (outside ++ part ++ opening ++ .openParen :: (inside ++ [.closeParen])) rest
      (ops.map .operator ++ base) := by
  have htokens : part ++ opening ++ .openParen :: (inside ++ .closeParen :: rest) =
      part ++ opening ++ .openParen :: (inside ++ [.closeParen]) ++ rest := by simp
  rw [htokens] at h
  have hreached := Reached.settled ops h (hpart.append_group hinside hopening)
  simpa only [List.append_assoc] using hreached

/-- An operator sends off only operators above the innermost open parenthesis. -/
theorem steps_operator {op : BinaryOp} (h : Around outside (part ++ .operator op :: rest) base)
    (hpart : Settled part) (ops : List BinaryOp) :
    Steps limit (ops.map .operator ++ base) ⟨outside ++ part, .operator op, rest⟩ := by
  have hhead : ∀ top ∈ base.head?, top.yieldsTo op = false := by
    intro top htop
    rw [h.head?_base top htop]
    rfl
  have hleft : (ops.map Pending.operator ++ base).dropWhile (·.yieldsTo op) =
      (ops.dropWhile fun other => (Pending.operator other).yieldsTo op).map .operator ++ base := by
    rw [Pending.dropWhile_append_of_head hhead, List.dropWhile_map]
    rfl
  refine .inr ⟨_, _, rfl, rfl, ?_⟩
  rw [hleft, ← List.cons_append, ← List.map_cons]
  exact concat h hpart rfl nofun _

/-- A function is taken if nothing is wrong with its call, and its parenthesis comes next. -/
theorem steps_function {f : ElementaryFunction}
    (h : Around outside (part ++ .function f :: rest) base) (hpart : Settled part)
    (ops : List BinaryOp) :
    Steps limit (ops.map .operator ++ base) ⟨outside ++ part, .function f, rest⟩ := by
  have hdepth : Postfix.callDepth (ops.map .operator ++ base) =
      argumentsAround (outside ++ part) (.function f :: rest) := by
    rw [Around.callDepth_operators, h.callDepth_eq, h.argumentsAround_append hpart]
  have hcheck : Postfix.checkCall limit (ops.map .operator ++ base) f rest = _ :=
    Postfix.checkCall_eq_callFault hdepth
  cases hfault : callFault limit (outside ++ part) f rest with
  | some fault =>
      rw [hfault] at hcheck
      exact .inl ⟨fault, hfault, Postfix.step_function_of_error hcheck⟩
  | none =>
      rw [hfault] at hcheck
      rcases Postfix.checkCall_eq_ok_iff.mp hcheck with ⟨argument, rfl, hcloses, -, -⟩
      refine .inr ⟨_, _, hfault, Postfix.step_function hcheck, ?_⟩
      exact .named f ops h hpart (isClosed_iff.mpr hcloses)

/-- Operators and open parentheses wait on top, but for a function whose name was just read. -/
theorem closeCall_eq (h : Around outside inside base) (ops : List BinaryOp) :
    Postfix.closeCall (ops.map .operator ++ base) = ([], ops.map .operator ++ base) := by
  apply Span.closeCall_of_head
  intro top htop
  cases ops with
  | nil =>
      rw [h.head?_base top htop]
      rfl
  | cons op rest =>
      cases htop
      rfl

/-- A closing parenthesis takes what its opening one waits with, a function or nothing. -/
theorem steps_closeParen (h : Around outside (part ++ .closeParen :: rest) base)
    (hpart : Settled part) (ops : List BinaryOp) :
    Steps limit (ops.map .operator ++ base) ⟨outside ++ part, .closeParen, rest⟩ := by
  have hopened : ∀ outer, IsOpened (outer ++ .openParen :: part) :=
    fun outer => ⟨part, List.suffix_append _ _, hpart.balanced⟩
  cases h with
  | whole =>
      refine .inl ⟨_, if_neg (not_isOpened_of_balanced hpart.balanced), ?_⟩
      rw [List.append_nil, Postfix.step_closeParen_operators]
  | @group outer before _ below ops' h hbefore =>
      have hfault : IsOpened (outer ++ before ++ [.openParen] ++ part) := by
        simpa using hopened (outer ++ before)
      have hreached := closed [] (by simpa using h) hbefore rfl hpart ops'
      refine .inr ⟨_, _, if_pos hfault, Postfix.step_closeParen rest, ?_⟩
      rw [closeCall_eq h]
      simpa using hreached
  | @call outer before _ below f ops' h hbefore hclosed =>
      have hfault : IsOpened (outer ++ before ++ [.function f, .openParen] ++ part) := by
        have hcall := hopened (outer ++ before ++ [.function f])
        simpa using hcall
      have hreached := closed [.function f] (by simpa using h) hbefore rfl hpart ops'
      refine .inr ⟨_, _, if_pos hfault, Postfix.step_closeParen rest, ?_⟩
      rw [Postfix.closeCall]
      simpa using hreached

/-- One step, from what is reached before it to what is reached behind it. -/
theorem step (h : Reached before (token :: rest) stack) :
    Steps limit stack ⟨before, token, rest⟩ := by
  cases h with
  | settled ops h hpart =>
      cases token with
      | literal _ | identifier _ => exact .inr ⟨_, _, rfl, rfl, concat h hpart rfl nofun ops⟩
      | function f => exact steps_function h hpart ops
      | operator op => exact steps_operator h hpart ops
      | openParen => exact .inr ⟨_, _, rfl, rfl, opened (.group ops h hpart)⟩
      | closeParen => exact steps_closeParen h hpart ops
  | @named outside part _ base f ops h hpart hclosed =>
      -- the check of the call has seen this parenthesis already
      refine .inr ⟨_, _, rfl, rfl, ?_⟩
      have hreached := opened (.call f ops h hpart hclosed)
      simpa only [List.append_assoc, List.cons_append, List.nil_append] using hreached

/-- What is reached at the end is settled in whole, or some parenthesis is still open. -/
theorem finish (h : Reached before [] stack) :
    ¬ HasUnclosed before ∧ (∃ output, Postfix.finish stack = .ok output) ∨
      HasUnclosed before ∧ Postfix.finish stack = .error .mismatchedParenthesis := by
  cases h with
  | @settled outside part _ base ops h hpart =>
      rcases h.eq_nil_or_exists with ⟨rfl, rfl⟩ | ⟨outer, below, rfl, rfl⟩
      · refine .inl ⟨not_hasUnclosed_of_balanced hpart.balanced, ?_⟩
        rw [List.append_nil]
        exact ⟨_, Postfix.finish_operators⟩
      · refine .inr ⟨⟨part, ⟨outer, by simp⟩, not_isClosed_of_balanced hpart.balanced⟩, ?_⟩
        rw [Postfix.finish, if_neg]
        simp [Pending.isOperator]

end Reached

/-! ### A whole run -/

/-- A conversion comes out as a verdict says: it fails with the fault if there is one, and succeeds
    otherwise. -/
def Obeys (verdict : Option Fault) (result : Except Fault (List Token)) : Prop :=
  match verdict with
  | some fault => result = .error fault
  | none => ∃ output, result = .ok output

/-- What was emitted before does not change how a run comes out. -/
theorem Obeys.after {verdict : Option Fault} {result : Except Fault (List Token)}
    (h : Obeys verdict result) (emitted : List Token) :
    Obeys verdict (do
      let later ← result
      return emitted ++ later) := by
  cases verdict with
  | some fault =>
      have hresult : result = .error fault := h
      rw [hresult]
      rfl
  | none =>
      rcases h with ⟨output, rfl⟩
      exact ⟨emitted ++ output, rfl⟩

/-- What is wrong with tokens none of which is faulty. -/
def unclosedFault (tokens : List Token) : Option Fault :=
  if HasUnclosed tokens then some .mismatchedParenthesis else none

/-- A run from what is reached fails with the first fault of the places that it goes over, and
    without one only for a parenthesis that is never closed. -/
theorem Reached.run (h : Reached before following stack) :
    Obeys (((places before following).findSome? (Place.fault limit)).or
      (unclosedFault (before ++ following))) (Postfix.run limit stack following) := by
  induction following generalizing before stack with
  | nil =>
      rw [List.append_nil, unclosedFault]
      rcases h.finish with ⟨hclosed, hfinish⟩ | ⟨hunclosed, hfinish⟩
      · rwa [if_neg hclosed]
      · rwa [if_pos hunclosed]
  | cons token rest ih =>
      rw [places, List.findSome?_cons, Postfix.run]
      rcases h.step with ⟨fault, hfault, hstep⟩ | ⟨emitted, left, hfault, hstep, hreached⟩
      · dsimp only at hstep
        rw [hfault, hstep]
        rfl
      · -- seen from the next place, the whole list is the same
        have hrest := ih hreached
        rw [List.append_assoc, List.singleton_append] at hrest
        dsimp only at hstep
        rw [hfault, hstep]
        exact hrest.after emitted

/-- Tokens are put in postfix order if none of them is faulty and every parenthesis is closed.
    Otherwise the conversion fails, with the fault of the leftmost faulty token if there is one.
    Nothing else makes it fail: not operators or operands that are missing, nor empty parentheses
    that belong to no function. -/
theorem outcome_reorder_by_first_fault (limit : Nat) (tokens : List Token) :
    match firstFault limit tokens with
    | some fault => (Postfix.reorder limit tokens).outcome = .error fault
    | none =>
        if HasUnclosed tokens then
          (Postfix.reorder limit tokens).outcome = .error .mismatchedParenthesis
        else ∃ output, (Postfix.reorder limit tokens).outcome = .ok output := by
  have hempty : Reached [] tokens [] := .opened .whole
  have hrun : Obeys ((firstFault limit tokens).or (unclosedFault tokens))
      (Postfix.reorder limit tokens).outcome := by
    rw [Postfix.outcome_reorder]
    exact hempty.run
  cases hfirst : firstFault limit tokens with
  | some fault =>
      rw [hfirst] at hrun
      exact hrun
  | none =>
      rw [hfirst, Option.none_or, unclosedFault] at hrun
      dsimp only
      split
      · rename_i hunclosed
        rwa [if_pos hunclosed] at hrun
      · rename_i hclosed
        rwa [if_neg hclosed] at hrun

/-- `sin(cos(x)))`: the call that lies too deep comes before the parenthesis that closes nothing. -/
example : firstFault 1 [.function .sin, .openParen, .function .cos, .openParen, .identifier "x",
    .closeParen, .closeParen, .closeParen] = some (.nestingTooDeep 1) := by
  decide

/-- `() x ln(y) * -` has no operands for its operators, but no faulty token either. -/
example : firstFault 1 [.openParen, .closeParen, .identifier "x", .function .ln, .openParen,
    .identifier "y", .closeParen, .operator .multiply, .operator .subtract] = none := by
  decide

end SymbolicCalculus
