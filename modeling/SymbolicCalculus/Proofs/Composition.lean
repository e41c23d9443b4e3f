/-
Module: SymbolicCalculus.Proofs.Composition
Layer: Proofs
Purpose: Texts that are put together from texts that can be read. In parentheses a text is read as
  it is by itself, whatever stands around it: the run of its tokens goes the same way above the open
  parenthesis, since nothing below that is looked at, and what it leaves there is sent off when the
  parenthesis closes. Its own parentheses are closed by then, well formed or not, so that the
  argument of a function ends where it should.
Trusted boundary: none
Main exports: Postfix.step_above, Postfix.advance_above, Postfix.balanced_of_run,
  Postfix.advance_group, read_composed
-/
import SymbolicCalculus.Proofs.SpanConversion
import SymbolicCalculus.Proofs.TextRoundTrip

namespace SymbolicCalculus

namespace Postfix

variable {limit above : Nat} {stack left base : List Pending} {token : Token}
  {tokens following emitted output tail : List Token}

/-! ### Above an open parenthesis -/

theorem callDepth_above (stack base : List Pending) :
    callDepth (stack ++ .openParen :: base) = callDepth stack + callDepth base := by
  rw [callDepth, List.countP_append]
  exact congrArg (_ + ·) callDepth_openParen

/-- A parenthesis that is closed is closed whatever comes behind. -/
theorem closesAfter_append_of_true {opened : Nat} (h : closesAfter opened tokens = true)
    (tail : List Token) : closesAfter opened (tokens ++ tail) = true := by
  induction tokens generalizing opened with
  | nil => cases opened <;> cases h
  | cons token rest ih =>
      by_cases hclose : token = .closeParen ∧ opened = 0
      · rcases hclose with ⟨rfl, rfl⟩
        rfl
      · rw [Span.closesAfter_cons rest hclose] at h
        rw [List.cons_append, Span.closesAfter_cons _ hclose]
        exact ih h

/-- A call that passes its check does so with more behind it, and with more around it if the limit
    allows for that. -/
theorem checkCall_above {f : ElementaryFunction} (hlimit : limit + callDepth base ≤ above)
    (h : checkCall limit stack f following = .ok ()) (tail : List Token) :
    checkCall above (stack ++ .openParen :: base) f (following ++ tail) = .ok () := by
  rcases checkCall_eq_ok_iff.mp h with ⟨rest, rfl, hcloses, hhead, hdepth⟩
  apply checkCall_eq_ok_iff.mpr
  refine ⟨rest ++ tail, rfl, closesAfter_append_of_true hcloses tail, ?_, ?_⟩
  · cases rest with
    | nil => cases hcloses
    | cons first others => exact hhead
  · rw [callDepth_above]
    omega

/-- A group closes above an open parenthesis as it does by itself. -/
theorem closeGroup_above (h : closeGroup stack = .ok (emitted, left)) (base : List Pending) :
    closeGroup (stack ++ .openParen :: base) = .ok (emitted, left ++ .openParen :: base) := by
  have hhead : ∀ top ∈ (Pending.openParen :: base).head?, top.isOperator = false := by
    intro top htop
    cases htop
    rfl
  rcases closeGroup_eq_ok_iff.mp h with ⟨rest, hrest, rfl, rfl⟩
  have hcall : closeCall (rest ++ .openParen :: base) =
      ((closeCall rest).1, (closeCall rest).2 ++ .openParen :: base) := by
    cases rest with
    | nil => rfl
    | cons top rest => cases top <;> rfl
  apply closeGroup_eq_ok_iff.mpr
  refine ⟨rest ++ .openParen :: base, ?_, ?_, ?_⟩
  · rw [Pending.dropWhile_append_of_head hhead, hrest, List.cons_append]
  · rw [Pending.takeWhile_append_of_head hhead, hcall]
  · rw [hcall]

/-- A step above an open parenthesis looks at nothing below it, and at nothing that stands behind
    the tokens that follow. -/
theorem step_above (hlimit : limit + callDepth base ≤ above)
    (h : step limit stack token following = .ok (emitted, left)) (tail : List Token) :
    step above (stack ++ .openParen :: base) token (following ++ tail) =
      .ok (emitted, left ++ .openParen :: base) := by
  cases token with
  | literal value =>
      cases h
      rfl
  | identifier name =>
      cases h
      rfl
  | function f =>
      rcases step_function_eq_ok_iff.mp h with ⟨hcheck, rfl, rfl⟩
      exact step_function (checkCall_above hlimit hcheck tail)
  | operator op =>
      have hhead : ∀ top ∈ (Pending.openParen :: base).head?, top.yieldsTo op = false := by
        intro top htop
        cases htop
        rfl
      cases h
      rw [step, Pending.takeWhile_append_of_head hhead, Pending.dropWhile_append_of_head hhead,
        List.cons_append]
  | openParen =>
      cases h
      rfl
  | closeParen => exact closeGroup_above h base

/-- Only operators wait where a run ends well. -/
theorem exists_operators_of_finish (h : finish stack = .ok output) :
    ∃ ops : List BinaryOp, stack = ops.map .operator ∧ output = ops.map .operator := by
  rcases finish_eq_ok_iff.mp h with ⟨hall, rfl⟩
  have hcalls : ∀ top ∈ stack, top.isFunction = false := by
    intro top htop
    have hoperator := hall top htop
    cases top with
    | operator _ | openParen => rfl
    | function f => cases hoperator
  rcases Span.operators_or_openParen hcalls with ⟨ops, rfl⟩ | ⟨ops, below, rfl⟩
  · exact ⟨ops, rfl, Pending.flatMap_emission_operators ops⟩
  · exact absurd (hall .openParen (by simp)) (by simp [Pending.isOperator])

/-- What a run gives, the same tokens emit above an open parenthesis, or leave there as operators
    that wait for the parenthesis to close. -/
theorem advance_above (hlimit : limit + callDepth base ≤ above)
    (h : run limit stack tokens = .ok output) (tail : List Token) :
    ∃ (emitted : List Token) (ops : List BinaryOp),
      advance above (stack ++ .openParen :: base) tail tokens =
          .ok (emitted, ops.map .operator ++ .openParen :: base) ∧
        emitted ++ ops.map .operator = output := by
  induction tokens generalizing stack output with
  | nil =>
      rcases exists_operators_of_finish h with ⟨ops, rfl, rfl⟩
      exact ⟨[], ops, rfl, rfl⟩
  | cons token rest ih =>
      rcases run_cons_eq_ok_iff.mp h with ⟨emitted, left, later, hstep, hlater, rfl⟩
      rcases ih hlater with ⟨emitted', ops, hadvance, rfl⟩
      refine ⟨emitted ++ emitted', ops, ?_, List.append_assoc _ _ _⟩
      exact advance_cons_of_ok (step_above hlimit hstep tail) hadvance

/-- Tokens in parentheses emit what they give by themselves, and after it the function that the
    parentheses belong to. -/
theorem advance_group (hlimit : limit + callDepth base ≤ above)
    (h : ofInfix limit tokens = .ok output) (tail : List Token) :
    advance above base tail (.openParen :: (tokens ++ [.closeParen])) =
      .ok (output ++ (closeCall base).1, (closeCall base).2) := by
  rcases advance_above hlimit h (.closeParen :: tail) with ⟨emitted, ops, hadvance, rfl⟩
  have hopen : step above base .openParen (tokens ++ [.closeParen] ++ tail) =
      .ok ([], .openParen :: base) := rfl
  have hclose : advance above (ops.map .operator ++ .openParen :: base) tail [.closeParen] =
      .ok (ops.map .operator ++ (closeCall base).1, (closeCall base).2) := by
    rw [advance_singleton, step_closeParen]
  have hgroup := advance_cons_of_ok hopen (advance_append_of_ok hadvance hclose)
  rwa [List.nil_append, ← List.append_assoc] at hgroup

/-! ### Accepted tokens put together -/

/-- A step opens and closes parentheses on its stack as its token does. -/
theorem count_of_step (h : step limit stack token following = .ok (emitted, left)) :
    ¬ (token = .closeParen ∧ stack.count .openParen = 0) ∧
      left.count .openParen = Span.openedBehind (stack.count .openParen) token := by
  cases token with
  | literal _ | identifier _ =>
      cases h
      exact ⟨by simp, rfl⟩
  | function f =>
      rcases step_function_eq_ok_iff.mp h with ⟨-, -, rfl⟩
      exact ⟨by simp, List.count_cons_of_ne (by simp)⟩
  | operator op =>
      cases h
      refine ⟨by simp, ?_⟩
      rw [List.count_cons_of_ne (by simp), count_dropWhile_operators rfl, Span.openedBehind]
  | openParen =>
      cases h
      exact ⟨by simp, List.count_cons_self⟩
  | closeParen =>
      rw [count_of_closeGroup h]
      exact ⟨by simp, rfl⟩

/-- Tokens that a run accepts close the parentheses that wait on its stack, and no others. -/
theorem balanced_of_run (h : run limit stack tokens = .ok output) :
    Span.balanced (stack.count .openParen) tokens = true := by
  induction tokens generalizing stack output with
  | nil =>
      rcases exists_operators_of_finish h with ⟨ops, rfl, -⟩
      exact Span.balanced_nil.mpr (Span.count_operators ops)
  | cons token rest ih =>
      rcases run_cons_eq_ok_iff.mp h with ⟨emitted, left, later, hstep, hlater, -⟩
      rcases count_of_step hstep with ⟨hopen, hcount⟩
      have hrest := ih hlater
      rw [hcount] at hrest
      exact Span.balanced_cons.mpr ⟨hopen, hrest⟩

/-- Accepted tokens, unless there are none, are an argument that a function may be called on. -/
theorem checkCall_of_ofInfix (h : ofInfix limit tokens = .ok output) (hne : output ≠ [])
    (hdepth : callDepth stack < above) (f : ElementaryFunction) (following : List Token) :
    checkCall above stack f (.openParen :: (tokens ++ .closeParen :: following)) = .ok () := by
  apply checkCall_eq_ok_iff.mpr
  refine ⟨_, rfl, ?_, ?_, hdepth⟩
  · exact Span.closesAfter_append_of_balanced (balanced_of_run h) 0 _
  · cases tokens with
    | nil =>
        cases h
        exact absurd rfl hne
    | cons token rest =>
        intro hhead
        cases hhead
        cases h

/-- Tokens in parentheses are put in the order that they have by themselves. -/
theorem ofInfix_group (hlimit : limit ≤ above) (h : ofInfix limit tokens = .ok output) :
    ofInfix above (.openParen :: (tokens ++ [.closeParen])) = .ok output := by
  have hgroup : advance above [] [] (.openParen :: (tokens ++ [.closeParen])) =
      .ok (output ++ [], [].map .operator) := advance_group hlimit h []
  rw [ofInfix_of_advance hgroup, List.map_nil, List.append_nil, List.append_nil]

/-- Of tokens in parentheses on both sides of an operator, the left ones come first and the operator
    last. -/
theorem ofInfix_operation {first second before after : List Token} (hlimit : limit ≤ above)
    (hfirst : ofInfix limit first = .ok before) (hsecond : ofInfix limit second = .ok after)
    (op : BinaryOp) :
    ofInfix above (.openParen :: (first ++ [.closeParen]) ++
      .operator op :: .openParen :: (second ++ [.closeParen])) =
        .ok (before ++ after ++ [.operator op]) := by
  have hleft : advance above []
      (.operator op :: .openParen :: (second ++ [.closeParen]) ++ [])
      (.openParen :: (first ++ [.closeParen])) = .ok (before ++ [], []) :=
    advance_group hlimit hfirst _
  have hop : step above [] (.operator op) (.openParen :: (second ++ [.closeParen]) ++ []) =
      .ok ([], [.operator op]) := rfl
  have hright : advance above [.operator op] [] (.openParen :: (second ++ [.closeParen])) =
      .ok (after ++ [], [op].map .operator) := advance_group hlimit hsecond []
  rw [ofInfix_of_advance (advance_append_of_ok hleft (advance_cons_of_ok hop hright))]
  simp

/-- Of a function that is called on tokens, the tokens come first. -/
theorem ofInfix_call (hlimit : limit < above) (h : ofInfix limit tokens = .ok output)
    (hne : output ≠ []) (f : ElementaryFunction) :
    ofInfix above (.function f :: .openParen :: (tokens ++ [.closeParen])) =
      .ok (output ++ [.function f]) := by
  have hcheck : checkCall above [] f (.openParen :: (tokens ++ [.closeParen]) ++ []) = .ok () := by
    rw [List.append_nil]
    exact checkCall_of_ofInfix h hne (Nat.zero_lt_of_lt hlimit) f []
  have hargument : advance above [.function f] [] (.openParen :: (tokens ++ [.closeParen])) =
      .ok (output ++ [.function f], [].map .operator) := advance_group hlimit h []
  rw [ofInfix_of_advance (advance_cons_of_ok (step_function hcheck) hargument)]
  simp

end Postfix

/-! ### Expressions put together -/

namespace Expr

variable {limit : Nat} {tokens : List Token} {e : Expr}

theorem toPostfix_ne_nil (e : Expr) : e.toPostfix ≠ [] := by
  cases e <;> simp [toPostfix]

/-- Plain parentheses around tokens change nothing. -/
theorem parse_group (h : (parse limit tokens).outcome = .ok e) :
    (parse limit (.openParen :: (tokens ++ [.closeParen]))).outcome = .ok e := by
  rcases outcome_parse_eq_ok_iff_ofInfix.mp h with ⟨hordered, hdepth⟩
  exact outcome_parse_eq_ok_iff_ofInfix.mpr
    ⟨Postfix.ofInfix_group (Nat.le_refl limit) hordered, hdepth⟩

/-- Tokens in parentheses on both sides of an operator are read as its operands. -/
theorem parse_operation {first second : List Token} {left right : Expr}
    (hfirst : (parse limit first).outcome = .ok left)
    (hsecond : (parse limit second).outcome = .ok right) (op : BinaryOp) :
    (parse (limit + 1) (.openParen :: (first ++ [.closeParen]) ++
      .operator op :: .openParen :: (second ++ [.closeParen]))).outcome =
        .ok (.binary op left right) := by
  rcases outcome_parse_eq_ok_iff_ofInfix.mp hfirst with ⟨hleft, hleftDepth⟩
  rcases outcome_parse_eq_ok_iff_ofInfix.mp hsecond with ⟨hright, hrightDepth⟩
  apply outcome_parse_eq_ok_iff_ofInfix.mpr
  constructor
  · exact Postfix.ofInfix_operation (Nat.le_succ limit) hleft hright op
  · exact Nat.succ_le_succ (Nat.max_le.mpr ⟨hleftDepth, hrightDepth⟩)

/-- Tokens in parentheses behind a function are read as its argument. -/
theorem parse_call (h : (parse limit tokens).outcome = .ok e) (f : ElementaryFunction) :
    (parse (limit + 1) (.function f :: .openParen :: (tokens ++ [.closeParen]))).outcome =
      .ok (.call f e) := by
  rcases outcome_parse_eq_ok_iff_ofInfix.mp h with ⟨hordered, hdepth⟩
  apply outcome_parse_eq_ok_iff_ofInfix.mpr
  constructor
  · exact Postfix.ofInfix_call (Nat.lt_succ_self limit) hordered e.toPostfix_ne_nil f
  · exact Nat.succ_le_succ hdepth

end Expr

/-! ### Texts put together -/

namespace Token

variable {text : List Char} {tokens : List Token}

/-- A text in parentheses has the tokens of the text between its own. -/
theorem scan_group (h : ∀ position, scan position text = .ok tokens) (position : Nat) :
    scan position ('(' :: (text ++ [')'])) = .ok (.openParen :: (tokens ++ [.closeParen])) := by
  have hopen : Separate ['('] (text ++ [')']) := separate_concat rfl [] _
  have hclose : Separate text [')'] := separate_cons rfl _ _
  exact scan_append_of_ok hopen (fun _ => rfl) (scan_append_of_ok hclose h fun _ => rfl) position

/-- Texts in parentheses on both sides of an operator are read by themselves. -/
theorem scan_operation {first second : List Char} {left right : List Token}
    (hfirst : ∀ position, scan position first = .ok left)
    (hsecond : ∀ position, scan position second = .ok right) (op : BinaryOp) (position : Nat) :
    scan position ('(' :: (first ++ [')']) ++ op.symbol :: '(' :: (second ++ [')'])) =
      .ok (.openParen :: (left ++ [.closeParen]) ++
        .operator op :: .openParen :: (right ++ [.closeParen])) := by
  have hop : ∀ position, scan position [op.symbol] = .ok [.operator op] := by
    intro position
    cases op <;> rfl
  have hright := scan_append_of_ok (separate_cons rfl [op.symbol] _) hop (scan_group hsecond)
  exact scan_append_of_ok (separate_concat rfl ('(' :: first) _) (scan_group hfirst) hright position

/-- The name of a function is read by itself before a parenthesis. -/
theorem scan_call (h : ∀ position, scan position text = .ok tokens) (f : ElementaryFunction)
    (position : Nat) :
    scan position (f.name.toList ++ '(' :: (text ++ [')'])) =
      .ok (.function f :: .openParen :: (tokens ++ [.closeParen])) := by
  have hnamed : (Token.function f).isWellNamed = true := rfl
  have hname := scan_text hnamed
  simp only [Token.text, reread] at hname
  exact scan_append_of_ok (separate_cons rfl _ _) hname (scan_group h) position

/-- What stands in parentheses in a text is read as it is by itself. -/
theorem tokenize_composed {first second : String} {left right : List Token}
    (hfirst : tokenize first = .ok left) (hsecond : tokenize second = .ok right) (op : BinaryOp)
    (f : ElementaryFunction) :
    tokenize ("(" ++ first ++ ")" ++ op.symbol.toString ++ "(" ++ second ++ ")") =
        .ok (.openParen :: (left ++ [.closeParen]) ++
          .operator op :: .openParen :: (right ++ [.closeParen])) ∧
      tokenize (f.name ++ "(" ++ first ++ ")") =
        .ok (.function f :: .openParen :: (left ++ [.closeParen])) ∧
      tokenize ("(" ++ first ++ ")") = .ok (.openParen :: (left ++ [.closeParen])) := by
  have hleft := scan_of_tokenize hfirst
  have hright := scan_of_tokenize hsecond
  refine ⟨?_, ?_, ?_⟩
  · simpa [tokenize_eq_scan] using scan_operation hleft hright op 0
  · simpa [tokenize_eq_scan] using scan_call hleft f 0
  · simpa [tokenize_eq_scan] using scan_group hleft 0

end Token

/-- Reading is compositional, for every text that is read, well formed or not. Two of them in
    parentheses with an operator between are read as the operation on what they are read as, and one
    in parentheses behind the name of a function as the call on it, with one level more allowed; and
    one in plain parentheses is read as before. -/
theorem read_composed {limit : Nat} {first second : String} {left right : Expr}
    (hfirst : (Expr.read limit first).outcome = .ok left)
    (hsecond : (Expr.read limit second).outcome = .ok right) (op : BinaryOp)
    (f : ElementaryFunction) :
    (Expr.read (limit + 1)
        ("(" ++ first ++ ")" ++ op.symbol.toString ++ "(" ++ second ++ ")")).outcome =
          .ok (.binary op left right) ∧
      (Expr.read (limit + 1) (f.name ++ "(" ++ first ++ ")")).outcome = .ok (.call f left) ∧
      (Expr.read limit ("(" ++ first ++ ")")).outcome = .ok left := by
  rcases Expr.outcome_read_eq_ok_iff.mp hfirst with ⟨firstTokens, hfirstTokens, hleft⟩
  rcases Expr.outcome_read_eq_ok_iff.mp hsecond with ⟨secondTokens, hsecondTokens, hright⟩
  rcases Token.tokenize_composed hfirstTokens hsecondTokens op f with ⟨hoperation, hcall, hgroup⟩
  refine ⟨?_, ?_, ?_⟩
  · exact Expr.outcome_read_eq_ok_iff.mpr ⟨_, hoperation, Expr.parse_operation hleft hright op⟩
  · exact Expr.outcome_read_eq_ok_iff.mpr ⟨_, hcall, Expr.parse_call hleft f⟩
  · exact Expr.outcome_read_eq_ok_iff.mpr ⟨_, hgroup, Expr.parse_group hleft⟩

/-- Neither `x y +` nor `2 z ^ ()` is well formed, and yet both are read and can be put together. -/
theorem read_composed_misplaced :
    (Expr.read 2 "x y +").outcome = .ok (.sum (.identifier "x") (.identifier "y")) ∧
      (Expr.read 2 "2 z ^ ()").outcome = .ok (.power (.literal 2) (.identifier "z")) ∧
      (Expr.read 3 "(x y +)*(2 z ^ ())").outcome =
        .ok (.product (.sum (.identifier "x") (.identifier "y"))
          (.power (.literal 2) (.identifier "z"))) ∧
      (Expr.read 3 "ln(x y +)").outcome =
        .ok (.call .ln (.sum (.identifier "x") (.identifier "y"))) ∧
      (Expr.read 2 "(x y +)").outcome = .ok (.sum (.identifier "x") (.identifier "y")) := by
  have hfirst : (Expr.read 2 "x y +").outcome =
      .ok (.sum (.identifier "x") (.identifier "y")) := rfl
  have hsecond : (Expr.read 2 "2 z ^ ()").outcome =
      .ok (.power (.literal 2) (.identifier "z")) := rfl
  exact ⟨hfirst, hsecond, read_composed hfirst hsecond .multiply .ln⟩

end SymbolicCalculus
