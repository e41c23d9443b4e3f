/-
Module: SymbolicCalculus.Proofs.SpanStacks
Layer: Proofs
Purpose: What waits while tokens are put in postfix order. In a span only operators and open
  parentheses wait, an operator directly above another binds tighter than that, and there are three
  precedences, so at most three operators wait between two parentheses. As many parentheses wait as
  the span has plain ones that are open. This holds whenever the loop over a span has taken some of
  its tokens, at any depth. A run gives the same as that loop (`Span.convert_eq`) but keeps all
  spans that have begun on one stack, each above the call that it is the argument of, and it holds
  of every part of that stack. What is open is counted over the tokens alone, with one number for
  each span that has begun and not ended.
Trusted boundary: human-reviewed spec
Main exports: Pending.BindsTighter, WaitsInSpan, WaitsInSpans, unclosed, Span.turn,
  Span.convertRest_cons, Span.GoesTo, Span.exists_of_turn, WaitsInSpans.step,
  waiting_operators_climb
-/
import Mathlib.Data.List.Chain
import Mathlib.Data.List.Infix
import SymbolicCalculus.Proofs.SpanConversion

namespace SymbolicCalculus

/-! ### What waits in a span -/

/-- If both symbols are operators, the upper one binds tighter. -/
def Pending.BindsTighter (above below : Pending) : Prop :=
  ∀ op other, above = .operator op → below = .operator other → other.precedence < op.precedence

/-- What waits in a span with so many plain parentheses open, the latest on top. Operators without
    a parenthesis between them climb in precedence from bottom to top. -/
structure WaitsInSpan (opened : Nat) (stack : List Pending) : Prop where
  symbols : ∀ top ∈ stack, top = .openParen ∨ ∃ op, top = .operator op
  climbing : stack.IsChain Pending.BindsTighter
  atMostThree : ∀ ops : List BinaryOp, ops.map .operator <:+: stack → ops.length ≤ 3
  count_openParen : stack.count .openParen = opened

/-- What waits in the spans that have begun and not ended, with the number of plain parentheses that
    are open in each, from the innermost out. An argument waits above the call around it. -/
inductive WaitsInSpans : List Nat → List Pending → Prop where
  | whole {opened : Nat} {own : List Pending} : WaitsInSpan opened own →
      WaitsInSpans [opened] own
  | argument {opened : Nat} {outer : List Nat} {own below : List Pending}
      (f : ElementaryFunction) : WaitsInSpan opened own → WaitsInSpans outer below →
      WaitsInSpans (opened :: outer) (own ++ .openParen :: .function f :: below)

/-! ### What is open in the tokens -/

/-- What a parenthesis that belongs to no function, or closes a call, does to the numbers of open
    parentheses. A span ends when it closes one more than it opened. -/
def afterToken (spans : List Nat) (token : Token) : List Nat :=
  match token, spans with
  | .openParen, opened :: outer => (opened + 1) :: outer
  | .closeParen, (opened + 1) :: outer => opened :: outer
  | .closeParen, 0 :: outer => outer
  | _, spans => spans

/-- The number of plain parentheses that are open in each span that has begun and not ended, from
    the innermost out. A function begins a span with its parenthesis. -/
def unclosed (spans : List Nat) : List Token → List Nat
  | [] => spans
  | .function _ :: .openParen :: rest => unclosed (0 :: spans) rest
  | token :: rest => unclosed (afterToken spans token) rest

/-- The number of closing parentheses that end these spans, after all that is open in them. -/
def closings : List Nat → Nat
  | [] => 0
  | opened :: outer => opened + 1 + closings outer

variable {limit depth opened : Nat} {spans outer : List Nat} {token : Token}
  {rest tokens following emitted : List Token} {stack left own below : List Pending}

/-- All but a function with its parenthesis goes token by token. -/
theorem unclosed_cons (h : ∀ f, token = .function f → rest.head? ≠ some .openParen) :
    unclosed spans (token :: rest) = unclosed (afterToken spans token) rest := by
  rw [unclosed]
  rintro f others rfl rfl
  exact h f rfl rfl

theorem unclosed_call (f : ElementaryFunction) :
    unclosed spans (.function f :: .openParen :: rest) = unclosed (0 :: spans) rest := by
  rw [unclosed]

/-- While spans inside are open, the parentheses of those and no others are opened and closed. -/
theorem afterToken_append {inner : List Nat} (outer : List Nat)
    (hinner : closings inner = opened + 1) (h : ¬ (token = .closeParen ∧ opened = 0)) :
    afterToken (inner ++ outer) token = afterToken inner token ++ outer ∧
      closings (afterToken inner token) = Span.openedBehind opened token + 1 := by
  cases inner with
  | nil => cases hinner
  | cons first others =>
      rw [closings] at hinner
      cases token with
      | literal _ | identifier _ | function _ | operator _ => exact ⟨rfl, hinner⟩
      | openParen =>
          refine ⟨rfl, ?_⟩
          simp only [afterToken, Span.openedBehind, closings]
          omega
      | closeParen =>
          have hopened : opened ≠ 0 := fun hzero => h ⟨rfl, hzero⟩
          cases first with
          | zero =>
              refine ⟨rfl, ?_⟩
              simp only [afterToken, Span.openedBehind]
              omega
          | succ first =>
              refine ⟨rfl, ?_⟩
              simp only [afterToken, Span.openedBehind, closings]
              omega

/-- One closing parenthesis ends a single span, in which nothing is open. -/
theorem eq_singleton_of_closings {inner : List Nat} (h : closings inner = 1) : inner = [0] := by
  cases inner with
  | nil => cases h
  | cons first others =>
      rw [closings] at h
      cases others with
      | nil =>
          rw [closings] at h
          rw [show first = 0 by omega]
      | cons next others =>
          rw [closings] at h
          omega

/-- Tokens that close all they open, and then one parenthesis more, end the spans inside and leave
    those around as they were. -/
theorem unclosed_append_closeParen {inner : List Nat} (h : Span.balanced opened tokens = true)
    (hinner : closings inner = opened + 1) :
    unclosed (inner ++ outer) (tokens ++ .closeParen :: rest) = unclosed outer rest := by
  fun_induction unclosed inner tokens generalizing opened with
  | case1 inner =>
      rw [Span.balanced_nil.mp h] at hinner
      rw [eq_singleton_of_closings hinner]
      rfl
  | case2 inner f others ih =>
      have hothers := (Span.balanced_cons.mp (Span.balanced_cons.mp h).2).2
      rw [List.cons_append, List.cons_append, unclosed_call, ← List.cons_append]
      refine ih hothers ?_
      simp only [Span.openedBehind, closings]
      omega
  | case3 inner token others hcall ih =>
      obtain ⟨hclose, hothers⟩ := Span.balanced_cons.mp h
      obtain ⟨happend, hopened⟩ := afterToken_append outer hinner hclose
      rw [List.cons_append, unclosed_cons, happend]
      · exact ih hothers hopened
      · rintro f rfl
        cases others with
        | nil => simp
        | cons next others =>
            rintro ⟨⟩
            exact hcall f others rfl rfl

/-- A whole call leaves the numbers as they were. -/
theorem unclosed_argument {f : ElementaryFunction} {span after : List Token}
    (h : Span.balanced 0 span = true) :
    unclosed spans (.function f :: .openParen :: (span ++ .closeParen :: after)) =
      unclosed spans after := by
  rw [unclosed_call]
  have hone : closings [0] = 0 + 1 := rfl
  exact unclosed_append_closeParen h hone

/-! ### What one symbol changes -/

/-- Precedences lie between those of sums and powers. -/
theorem BinaryOp.precedence_mem (op : BinaryOp) : 2 ≤ op.precedence ∧ op.precedence ≤ 4 := by
  cases op <;> decide

/-- Operators that climb in precedence are fewer than the uppermost one has precedences below. -/
theorem length_of_climbing {op : BinaryOp} {ops : List BinaryOp}
    (h : ((op :: ops).map Pending.operator).IsChain Pending.BindsTighter) :
    ops.length + 2 ≤ op.precedence := by
  induction ops generalizing op with
  | nil => exact op.precedence_mem.1
  | cons next rest ih =>
      obtain ⟨hnext, hrest⟩ := List.isChain_cons_cons.mp h
      have hlength := ih hrest
      have hlower := hnext op next rfl rfl
      rw [List.length_cons]
      omega

namespace WaitsInSpan

theorem isFunction_eq_false (h : WaitsInSpan opened stack) :
    ∀ top ∈ stack, top.isFunction = false := by
  intro top htop
  obtain rfl | ⟨op, rfl⟩ := h.symbols top htop <;> rfl

/-- Where operators climb, no more than three of them wait without a parenthesis between. -/
theorem of_climbing (hsymbols : ∀ top ∈ stack, top = .openParen ∨ ∃ op, top = .operator op)
    (hclimbing : stack.IsChain Pending.BindsTighter) (hcount : stack.count .openParen = opened) :
    WaitsInSpan opened stack where
  symbols := hsymbols
  climbing := hclimbing
  atMostThree ops hops := by
    cases ops with
    | nil => exact Nat.zero_le 3
    | cons op rest =>
        have hupper := List.IsChain.infix hclimbing hops
        have hlength := length_of_climbing hupper
        have hhighest := op.precedence_mem.2
        rw [List.length_cons]
        omega
  count_openParen := hcount

theorem nil : WaitsInSpan 0 [] :=
  of_climbing nofun .nil rfl

/-- What is left of a stack when symbols are taken from its top keeps its order. -/
theorem suffix (h : WaitsInSpan opened stack) (hleft : left <:+ stack) :
    WaitsInSpan (left.count .openParen) left :=
  of_climbing (fun top htop => h.symbols top (hleft.subset htop)) (h.climbing.suffix hleft) rfl

/-- A parenthesis waits above anything, and anything above a parenthesis. -/
theorem openParen (h : WaitsInSpan opened stack) :
    WaitsInSpan (opened + 1) (.openParen :: stack) := by
  apply of_climbing
  · exact List.forall_mem_cons.mpr ⟨.inl rfl, h.symbols⟩
  · exact List.isChain_cons.mpr ⟨fun _ _ _ _ => nofun, h.climbing⟩
  · rw [List.count_cons_self, h.count_openParen]

/-- An operator waits when those are gone that bind at least as tightly. -/
theorem operator (h : WaitsInSpan opened stack) (op : BinaryOp) :
    WaitsInSpan opened (.operator op :: stack.dropWhile (·.yieldsTo op)) := by
  have hleft := h.suffix (List.dropWhile_suffix (·.yieldsTo op))
  apply of_climbing
  · exact List.forall_mem_cons.mpr ⟨.inr ⟨op, rfl⟩, hleft.symbols⟩
  · refine List.isChain_cons.mpr ⟨?_, hleft.climbing⟩
    rintro below hbelow _ other ⟨⟩ rfl
    have hstays := List.head?_dropWhile_not (·.yieldsTo op) stack
    rw [Option.mem_def.mp hbelow] at hstays
    simpa [Pending.yieldsTo] using hstays
  · rw [List.count_cons_of_ne (by simp), Postfix.count_dropWhile_operators rfl, h.count_openParen]

/-- When a parenthesis of a span is closed, no call is: no function waits right below it. -/
theorem closeCall_append {base : List Pending} (h : WaitsInSpan opened own)
    (hbase : ∀ top ∈ base.head?, top.isFunction = false) :
    Postfix.closeCall (own ++ base) = ([], own ++ base) := by
  apply Span.closeCall_of_head
  intro top htop
  cases own with
  | nil => exact hbase top htop
  | cons first others =>
      cases htop
      exact h.isFunction_eq_false _ List.mem_cons_self

/-- In a span, only operators wait, or operators above a parenthesis. -/
theorem operators_or_openParen (h : WaitsInSpan opened stack) :
    (opened = 0 ∧ ∃ ops : List BinaryOp, stack = ops.map .operator) ∨
      ∃ (n : Nat) (ops : List BinaryOp) (below : List Pending), opened = n + 1 ∧
        stack = ops.map .operator ++ .openParen :: below ∧ WaitsInSpan n below := by
  obtain ⟨ops, rfl⟩ | ⟨ops, below, rfl⟩ := Span.operators_or_openParen h.isFunction_eq_false
  · refine .inl ⟨?_, ops, rfl⟩
    rw [← h.count_openParen, Span.count_operators]
  · refine .inr ⟨below.count .openParen, ops, below, ?_, rfl, h.suffix ?_⟩
    · rw [← h.count_openParen, List.count_append, Span.count_operators, List.count_cons_self,
        Nat.zero_add]
    · exact (List.suffix_cons _ below).trans (List.suffix_append _ _)

end WaitsInSpan

/-! ### The loop over one span -/

namespace Span

/-- One turn of the loop over a span: what is emitted at a token, what waits after it, and the
    tokens still to come. A call is taken in one turn, with its argument converted by itself. -/
def turn (limit depth : Nat) (waiting : List Token) (token : Token) (rest : List Token) :
    Except Stop (List Token × List Token × List Token) :=
  match token with
  | .literal _ | .identifier _ => return ([token], waiting, rest)
  | .function f => do
      let (span, after) ← (argument f rest).mapError .fault
      let converted ← convert limit (depth + 1) span
      return (converted ++ [.function f], waiting, after)
  | .openParen => return ([], .openParen :: waiting, rest)
  | .closeParen => do
      let (emitted, left) ← (close waiting).mapError .fault
      return (emitted, left, rest)
  | .operator op =>
      return (waiting.takeWhile (yieldsTo op), .operator op :: waiting.dropWhile (yieldsTo op),
        rest)

variable {waiting last remaining after : List Token}

/-- The conversion of a span is a turn at its first token and then the conversion of the rest. -/
theorem convertRest_cons (limit depth : Nat) (waiting : List Token) (token : Token)
    (rest : List Token) :
    convertRest limit depth waiting (token :: rest) = do
      let (emitted, left, after) ← turn limit depth waiting token rest
      let later ← convertRest limit depth left after
      return emitted ++ later := by
  cases token with
  | literal _ | identifier _ => exact convertRest_value waiting rest rfl
  | function f =>
      rw [convertRest_function, turn]
      simp only [bind_assoc, pure_bind, List.append_assoc, List.singleton_append]
  | operator op => exact convertRest_operator waiting rest op
  | openParen =>
      rw [convertRest_openParen]
      exact (bind_pure _).symm
  | closeParen =>
      rw [convertRest_closeParen, turn]
      simp only [bind_assoc, pure_bind]

/-- The states that the loop over a span goes on to, each with what waits and what is to come. -/
inductive GoesTo (limit depth : Nat) :
    List Token → List Token → List Token → List Token → Prop where
  | here (waiting rest : List Token) : GoesTo limit depth waiting rest waiting rest
  | next {waiting rest left after last remaining emitted : List Token} {token : Token} :
      turn limit depth waiting token rest = .ok (emitted, left, after) →
      GoesTo limit depth left after last remaining →
      GoesTo limit depth waiting (token :: rest) last remaining

/-- A state that the loop goes on to is one of those that the conversion goes through. -/
theorem GoesTo.exists_convertRest_eq (h : GoesTo limit depth waiting rest last remaining) :
    ∃ emitted, convertRest limit depth waiting rest = do
      let later ← convertRest limit depth last remaining
      return emitted ++ later := by
  induction h with
  | here waiting rest => exact ⟨[], (bind_pure _).symm⟩
  | @next waiting rest left after last remaining emitted token hturn _ ih =>
      obtain ⟨emitted', hlater⟩ := ih
      refine ⟨emitted ++ emitted', ?_⟩
      rw [convertRest_cons, hturn]
      show (convertRest limit depth left after >>= fun later => pure (emitted ++ later)) = _
      rw [hlater]
      simp only [bind_assoc, pure_bind, List.append_assoc]

/-- What waits in a span and what the tokens taken by a turn leave open change together. -/
theorem exists_of_turn (hown : WaitsInSpan opened own)
    (h : turn limit depth (own.map Pending.token) token rest = .ok (emitted, waiting, after)) :
    ∃ opened' own' piece, token :: rest = piece ++ after ∧ waiting = own'.map Pending.token ∧
      WaitsInSpan opened' own' ∧
      ∀ following, unclosed [opened] (piece ++ following) = unclosed [opened'] following := by
  cases token with
  | literal _ | identifier _ =>
      cases h
      exact ⟨opened, own, [_], rfl, rfl, hown, fun _ => rfl⟩
  | function f =>
      rw [turn] at h
      obtain ⟨⟨span, behind⟩, hargument, h⟩ := except_bind_eq_ok_iff.mp h
      obtain ⟨converted, -, h⟩ := except_bind_eq_ok_iff.mp h
      cases h
      obtain ⟨rfl, hbalanced⟩ := eq_of_argument (except_mapError_eq_ok_iff.mp hargument)
      refine ⟨opened, own, .function f :: .openParen :: (span ++ [.closeParen]), by simp, rfl, hown,
        fun following => ?_⟩
      have hcall : unclosed [opened]
          (.function f :: .openParen :: (span ++ .closeParen :: following)) =
            unclosed [opened] following := unclosed_argument hbalanced
      simpa using hcall
  | operator op =>
      cases h
      refine ⟨opened, _, [_], rfl, ?_, hown.operator op, fun _ => rfl⟩
      rw [List.map_cons, dropWhile_yieldsTo, Pending.token]
  | openParen =>
      cases h
      exact ⟨opened + 1, .openParen :: own, [_], rfl, rfl, hown.openParen, fun _ => rfl⟩
  | closeParen =>
      obtain ⟨-, ops, rfl⟩ | ⟨n, ops, below, rfl, rfl, hbelow⟩ := hown.operators_or_openParen
      · rw [turn, Pending.map_token_operators, close_operators] at h
        cases h
      · rw [turn, List.map_append, Pending.map_token_operators, List.map_cons, Pending.token,
          close_openParen] at h
        cases h
        exact ⟨n, below, [_], rfl, rfl, hbelow, fun _ => rfl⟩

/-- What waits in a span and what its tokens leave open agree in all states that the loop goes on
    to. -/
theorem GoesTo.exists_waitsInSpan (h : GoesTo limit depth waiting rest last remaining)
    (hwaiting : waiting = own.map Pending.token) (hown : WaitsInSpan opened own) :
    ∃ opened' own' taken, rest = taken ++ remaining ∧ last = own'.map Pending.token ∧
      WaitsInSpan opened' own' ∧ unclosed [opened] taken = [opened'] := by
  induction h generalizing opened own with
  | here waiting rest => exact ⟨opened, own, [], rfl, hwaiting, hown, by rw [unclosed]⟩
  | next hturn _ ih =>
      rw [hwaiting] at hturn
      obtain ⟨n, own', piece, hpiece, hleft, hown', hopened⟩ := exists_of_turn hown hturn
      obtain ⟨n', own'', taken, rfl, hlast, hown'', htaken⟩ := ih hleft hown'
      refine ⟨n', own'', piece ++ taken, ?_, hlast, hown'', ?_⟩
      · rw [hpiece, List.append_assoc]
      · rw [hopened, htaken]

end Span

/-! ### The stack of a run -/

namespace Postfix

/-- An advance over some tokens begins with a step. -/
theorem exists_of_advance_cons {last : List Pending}
    (h : advance limit stack following (token :: rest) = .ok (emitted, last)) :
    ∃ first left later, step limit stack token (rest ++ following) = .ok (first, left) ∧
      advance limit left following rest = .ok (later, last) := by
  rw [advance] at h
  obtain ⟨⟨first, left⟩, hstep, h⟩ := except_bind_eq_ok_iff.mp h
  obtain ⟨⟨later, last'⟩, hrest, h⟩ := except_bind_eq_ok_iff.mp h
  cases h
  exact ⟨first, left, later, hstep, hrest⟩

end Postfix

namespace WaitsInSpans

/-- What waits in the innermost span stands above what waits further out. -/
theorem exists_own (h : WaitsInSpans spans stack) :
    ∃ opened outer own base, spans = opened :: outer ∧ stack = own ++ base ∧
      WaitsInSpan opened own ∧ (∀ top ∈ base.head?, top = .openParen) ∧
      ∀ {opened' own'}, WaitsInSpan opened' own' →
        WaitsInSpans (opened' :: outer) (own' ++ base) := by
  cases h with
  | @whole opened _ hown =>
      have hstack := List.append_nil stack
      refine ⟨opened, [], stack, [], rfl, hstack.symm, hown, nofun, fun hown' => ?_⟩
      rw [List.append_nil]
      exact .whole hown'
  | @argument opened outer own below f hown hbelow =>
      refine ⟨opened, outer, own, _, rfl, rfl, hown, ?_, fun hown' => .argument f hown' hbelow⟩
      rintro top ⟨⟩
      rfl

/-- A closing parenthesis closes one of its span, or ends the span with its call. -/
theorem closeParen (h : WaitsInSpans spans stack)
    (hstep : Postfix.step limit stack .closeParen following = .ok (emitted, left)) :
    WaitsInSpans (afterToken spans .closeParen) left := by
  cases h with
  | whole hown =>
      obtain ⟨-, ops, rfl⟩ | ⟨n, ops, below, rfl, rfl, hbelow⟩ := hown.operators_or_openParen
      · rw [Postfix.step_closeParen_operators] at hstep
        cases hstep
      · have hcall : Postfix.closeCall (below ++ []) = ([], below ++ []) :=
          hbelow.closeCall_append nofun
        rw [List.append_nil] at hcall
        rw [Postfix.step_closeParen, hcall] at hstep
        cases hstep
        exact .whole hbelow
  | @argument opened outer own below f hown hbelow =>
      obtain ⟨rfl, ops, rfl⟩ | ⟨n, ops, inside, rfl, rfl, hinside⟩ := hown.operators_or_openParen
      · rw [Postfix.step_closeParen, Postfix.closeCall] at hstep
        cases hstep
        exact hbelow
      · have hhead : ∀ top ∈ (Pending.openParen :: .function f :: below).head?,
            top.isFunction = false := by
          rintro top ⟨⟩
          rfl
        have hcall := hinside.closeCall_append hhead
        rw [List.append_assoc, List.cons_append, Postfix.step_closeParen, hcall] at hstep
        cases hstep
        exact .argument f hinside hbelow

/-- A token that is no function changes only what waits in the innermost span, or ends that. -/
theorem step (h : WaitsInSpans spans stack) (hfunction : ∀ f, token ≠ .function f)
    (hstep : Postfix.step limit stack token following = .ok (emitted, left)) :
    WaitsInSpans (afterToken spans token) left := by
  cases token with
  | literal _ | identifier _ =>
      cases hstep
      exact h
  | function f => exact absurd rfl (hfunction f)
  | closeParen => exact h.closeParen hstep
  | openParen =>
      obtain ⟨opened, outer, own, base, rfl, rfl, hown, -, hspans⟩ := h.exists_own
      cases hstep
      exact hspans hown.openParen
  | operator op =>
      obtain ⟨opened, outer, own, base, rfl, rfl, hown, hbase, hspans⟩ := h.exists_own
      have hstays : ∀ top ∈ base.head?, top.yieldsTo op = false := by
        intro top htop
        rw [hbase top htop]
        rfl
      cases hstep
      rw [Pending.dropWhile_append_of_head hstays]
      exact hspans (hown.operator op)

/-- A function begins a span with its parenthesis. -/
theorem call (h : WaitsInSpans spans stack) (f : ElementaryFunction) :
    WaitsInSpans (0 :: spans) (.openParen :: .function f :: stack) :=
  .argument f .nil h

/-- What waits and what the tokens leave open agree for as long as a run goes on. A function and its
    parenthesis are taken together, as between them a span has begun that does not stand yet. -/
theorem advance (h : WaitsInSpans spans stack)
    (hadvance : Postfix.advance limit stack following tokens = .ok (emitted, left))
    (hlast : ∀ f, tokens.getLast? ≠ some (.function f)) :
    WaitsInSpans (unclosed spans tokens) left := by
  fun_induction unclosed spans tokens generalizing stack emitted with
  | case1 spans =>
      cases hadvance
      exact h
  | case2 spans f rest ih =>
      obtain ⟨_, named, _, hnamed, hrest⟩ := Postfix.exists_of_advance_cons hadvance
      obtain ⟨_, inside, later, hinside, hrest⟩ := Postfix.exists_of_advance_cons hrest
      obtain ⟨-, -, rfl⟩ := Postfix.step_function_eq_ok_iff.mp hnamed
      cases hinside
      refine ih (h.call f) hrest fun g hg => hlast g ?_
      rw [List.getLast?_cons, List.getLast?_cons, hg]
      rfl
  | case3 spans token rest hcall ih =>
      obtain ⟨_, next, later, hstep, hrest⟩ := Postfix.exists_of_advance_cons hadvance
      have hfunction : ∀ f, token ≠ .function f := by
        rintro f rfl
        cases rest with
        | nil => exact hlast f rfl
        | cons other others =>
            obtain ⟨hcheck, -, -⟩ := Postfix.step_function_eq_ok_iff.mp hstep
            obtain ⟨argument, hargument, -⟩ := Postfix.checkCall_eq_ok_iff.mp hcheck
            obtain ⟨rfl, -⟩ := List.cons.inj hargument
            exact hcall f others rfl rfl
      refine ih (h.step hfunction hstep) hrest fun g hg => hlast g ?_
      rw [List.getLast?_cons, hg]
      rfl

end WaitsInSpans

/-- What waits while tokens are put in postfix order. Whichever tokens the loop over a span has
    taken, at any depth, only operators and open parentheses wait in it. The operators climb in
    precedence, above each parenthesis and at the bottom, so no more than three stand together; and
    as many parentheses wait as plain ones are open in the span. The one stack of a run is made of
    the stacks of the spans that have begun and not ended, so all of this holds of each of them. -/
theorem waiting_operators_climb (limit : Nat) :
    (∀ depth tokens waiting rest, Span.GoesTo limit depth [] tokens waiting rest →
      (∃ emitted, Span.convertRest limit depth [] tokens = do
        let later ← Span.convertRest limit depth waiting rest
        return emitted ++ later) ∧
      ∃ opened own taken, tokens = taken ++ rest ∧ waiting = own.map Pending.token ∧
        WaitsInSpan opened own ∧ unclosed [0] taken = [opened]) ∧
    ∀ before following emitted stack,
      Postfix.advance limit [] following before = .ok (emitted, stack) →
      (∀ f, before.getLast? ≠ some (.function f)) →
        WaitsInSpans (unclosed [0] before) stack := by
  constructor
  · intro depth tokens waiting rest h
    exact ⟨h.exists_convertRest_eq, h.exists_waitsInSpan rfl .nil⟩
  · intro before following emitted stack hadvance hlast
    exact (WaitsInSpans.whole .nil).advance hadvance hlast

/-- `a + sin(b) * (c ^ 2` -/
def groupBehindCall : List Token :=
  [.identifier "a", .operator .add, .function .sin, .openParen, .identifier "b", .closeParen,
    .operator .multiply, .openParen, .identifier "c", .operator .power, .literal 2]

/-- `a + b * (c - sin(d * (e ^` -/
def groupInsideCall : List Token :=
  [.identifier "a", .operator .add, .identifier "b", .operator .multiply, .openParen,
    .identifier "c", .operator .subtract, .function .sin, .openParen, .identifier "d",
    .operator .multiply, .openParen, .identifier "e", .operator .power]

theorem goesTo_groupBehindCall : Span.GoesTo 7 5 [] groupBehindCall
    [.operator .power, .openParen, .operator .multiply, .operator .add] [.literal 2] := by
  have hargument : Span.convert 7 6 [.identifier "b"] = .ok [.identifier "b"] := by
    rw [Span.convert, if_neg (by decide), Span.convertRest_value _ _ rfl, Span.convertRest]
    rfl
  have hcall : Span.turn 7 5 [.operator .add] (.function .sin) (groupBehindCall.drop 3) =
      .ok ([.identifier "b", .function .sin], [.operator .add], groupBehindCall.drop 6) := by
    show (Span.convert 7 6 [.identifier "b"] >>= _) = _
    rw [hargument]
    rfl
  exact .next rfl (.next rfl (.next hcall (.next rfl (.next rfl (.next rfl (.next rfl
    (.here _ _)))))))

theorem waiting_operators_climb_around_call :
    Span.GoesTo 7 5 [] groupBehindCall
        [.operator .power, .openParen, .operator .multiply, .operator .add] [.literal 2] ∧
      (∃ opened own taken, groupBehindCall = taken ++ [.literal 2] ∧
        [.operator .power, .openParen, .operator .multiply, .operator .add] =
          own.map Pending.token ∧
        WaitsInSpan opened own ∧ unclosed [0] taken = [opened]) ∧
      Postfix.advance 1 [] [.literal 2, .closeParen, .closeParen, .closeParen] groupInsideCall =
        .ok ([.identifier "a", .identifier "b", .identifier "c", .identifier "d", .identifier "e"],
          [.operator .power, .openParen, .operator .multiply, .openParen, .function .sin,
            .operator .subtract, .openParen, .operator .multiply, .operator .add]) ∧
      (∀ f, groupInsideCall.getLast? ≠ some (.function f)) ∧
      WaitsInSpans [1, 1]
        [.operator .power, .openParen, .operator .multiply, .openParen, .function .sin,
          .operator .subtract, .openParen, .operator .multiply, .operator .add] := by
  have hadvance : Postfix.advance 1 [] [.literal 2, .closeParen, .closeParen, .closeParen]
      groupInsideCall = .ok ([.identifier "a", .identifier "b", .identifier "c", .identifier "d",
        .identifier "e"], [.operator .power, .openParen, .operator .multiply, .openParen,
        .function .sin, .operator .subtract, .openParen, .operator .multiply, .operator .add]) :=
    rfl
  have hlast : ∀ f, groupInsideCall.getLast? ≠ some (.function f) := by
    simp [groupInsideCall]
  exact ⟨goesTo_groupBehindCall,
    ((waiting_operators_climb 7).1 _ _ _ _ goesTo_groupBehindCall).2, hadvance, hlast,
    (waiting_operators_climb 1).2 _ _ _ _ hadvance hlast⟩

end SymbolicCalculus
