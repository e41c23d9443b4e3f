/-
Module: SymbolicCalculus.Proofs.Conversion
Layer: Proofs
Purpose: How the conversion to postfix order goes over a part of its tokens. `advance` takes a part
  when the tokens behind it are known, and a whole run is an advance that is then finished. Each
  kind of token has one lemma about the stacks it meets. The stack is always seen as some operators
  on top of what was there before: an operator of the right precedence sends off all of the former
  and none of the latter, and a closing parenthesis sends off all above its opening one.
Trusted boundary: none
Main exports: Postfix.advance, Postfix.advance_append, Postfix.run_cons_eq_ok_iff,
  Postfix.ofInfix_eq, Pending.admits, Postfix.step_operator, Postfix.step_function_eq_ok_iff,
  Postfix.step_closeParen, Postfix.closeGroup_eq_ok_iff, Postfix.finish_operators
-/
import SymbolicCalculus.Proofs.Grammar
import SymbolicCalculus.Reading

namespace SymbolicCalculus

namespace Postfix

/-- Takes tokens one after the other, when others follow them: what they emit, and what waits after
    them. -/
def advance (limit : Nat) (stack : List Pending) (following : List Token) :
    List Token → Except Fault (List Token × List Pending)
  | [] => return ([], stack)
  | token :: rest => do
      let (emitted, left) ← step limit stack token (rest ++ following)
      let (later, last) ← advance limit left following rest
      return (emitted ++ later, last)

variable {limit : Nat} {stack left last : List Pending} {token : Token}
  {following emitted later : List Token} {fault : Fault}

/-- An advance over one token is a step. -/
theorem advance_singleton : advance limit stack following [token] =
    step limit stack token following := by
  simp [advance]

/-- A step and then an advance are an advance. -/
theorem advance_cons_of_ok {rest : List Token}
    (hstep : step limit stack token (rest ++ following) = .ok (emitted, left))
    (hrest : advance limit left following rest = .ok (later, last)) :
    advance limit stack following (token :: rest) = .ok (emitted ++ later, last) := by
  rw [advance, hstep, except_ok_bind]
  dsimp only
  rw [hrest]
  rfl

/-- An advance fails with its first step. -/
theorem advance_cons_of_error {rest : List Token}
    (hstep : step limit stack token (rest ++ following) = .error fault) :
    advance limit stack following (token :: rest) = .error fault := by
  rw [advance, hstep, except_error_bind]

/-- After a step an advance fails as the rest of it does. -/
theorem advance_cons_of_ok_of_error {rest : List Token}
    (hstep : step limit stack token (rest ++ following) = .ok (emitted, left))
    (hrest : advance limit left following rest = .error fault) :
    advance limit stack following (token :: rest) = .error fault := by
  rw [advance, hstep, except_ok_bind]
  dsimp only
  rw [hrest, except_error_bind]

/-- Two parts are taken one after the other. The first sees the second among what follows it. -/
theorem advance_append (first second : List Token) :
    advance limit stack following (first ++ second) = do
      let (emitted, left) ← advance limit stack (second ++ following) first
      let (later, last) ← advance limit left following second
      return (emitted ++ later, last) := by
  induction first generalizing stack with
  | nil => simp [advance]
  | cons token rest ih => simp [advance, ih]

/-- Two advances are one. -/
theorem advance_append_of_ok {first second : List Token}
    (hfirst : advance limit stack (second ++ following) first = .ok (emitted, left))
    (hsecond : advance limit left following second = .ok (later, last)) :
    advance limit stack following (first ++ second) = .ok (emitted ++ later, last) := by
  rw [advance_append, hfirst, except_ok_bind]
  dsimp only
  rw [hsecond]
  rfl

/-- An advance fails with its first part. -/
theorem advance_append_of_error {first second : List Token}
    (hfirst : advance limit stack (second ++ following) first = .error fault) :
    advance limit stack following (first ++ second) = .error fault := by
  rw [advance_append, hfirst, except_error_bind]

/-- After its first part an advance fails as the second does. -/
theorem advance_append_of_ok_of_error {first second : List Token}
    (hfirst : advance limit stack (second ++ following) first = .ok (emitted, left))
    (hsecond : advance limit left following second = .error fault) :
    advance limit stack following (first ++ second) = .error fault := by
  rw [advance_append, hfirst, except_ok_bind]
  dsimp only
  rw [hsecond, except_error_bind]

/-- A run takes a first part and goes on with what follows it. -/
theorem run_append (tokens following : List Token) :
    run limit stack (tokens ++ following) = do
      let (emitted, left) ← advance limit stack following tokens
      let later ← run limit left following
      return emitted ++ later := by
  induction tokens generalizing stack with
  | nil => simp [advance]
  | cons token rest ih =>
      simp only [List.cons_append, run, advance, ih, bind_assoc, pure_bind, List.append_assoc]

/-- A run is a step and the run of the rest. -/
theorem run_cons_eq_ok_iff {rest output : List Token} :
    run limit stack (token :: rest) = .ok output ↔
      ∃ emitted left later, step limit stack token rest = .ok (emitted, left) ∧
        run limit left rest = .ok later ∧ output = emitted ++ later := by
  rw [run]
  constructor
  · intro h
    rcases except_bind_eq_ok_iff.mp h with ⟨⟨emitted, left⟩, hstep, hrest⟩
    rcases except_bind_eq_ok_iff.mp hrest with ⟨later, hlater, houtput⟩
    cases houtput
    exact ⟨emitted, left, later, hstep, hlater, rfl⟩
  · intro h
    rcases h with ⟨emitted, left, later, hstep, hlater, rfl⟩
    rw [hstep, except_ok_bind]
    dsimp only
    rw [hlater]
    rfl

/-- A run ends well when nothing but operators is left waiting. -/
theorem finish_eq_ok_iff {output : List Token} :
    finish stack = .ok output ↔
      (∀ top ∈ stack, top.isOperator = true) ∧ output = stack.flatMap Pending.emission := by
  rw [finish, ← List.all_eq_true]
  split
  · rename_i hall
    rw [Except.ok.injEq, eq_comm]
    exact (and_iff_right hall).symm
  · rename_i hall
    constructor
    · intro h
      cases h
    · intro h
      rcases h with ⟨hall', -⟩
      exact absurd hall' hall

/-- The conversion is an advance over all tokens, which is then finished. -/
theorem ofInfix_eq (tokens : List Token) :
    ofInfix limit tokens = do
      let (emitted, left) ← advance limit [] [] tokens
      let later ← finish left
      return emitted ++ later := by
  have h : run limit [] (tokens ++ []) = _ := run_append tokens []
  rwa [List.append_nil] at h

end Postfix

/-! ### Operators on top of a stack -/

namespace Pending

/-- Whether a phrase can be read on top of a waiting symbol without disturbing it: an operator
    waits on if it binds looser than the phrase, and a function waits only for a parenthesis. -/
def admits (phrase : Phrase) : Pending → Bool
  | .operator op => op.precedence < phrase.precedence
  | .openParen => true
  | .function _ => false

theorem admits_tighter {phrase : Phrase} {top : Pending} (h : top.admits phrase = true) :
    top.admits phrase.tighter = true := by
  cases top with
  | operator op =>
      simp only [admits, decide_eq_true_eq] at h ⊢
      exact Nat.lt_of_lt_of_le h phrase.precedence_le_tighter
  | openParen => rfl
  | function f => exact h

/-- A symbol that admits the phrase an operator forms stays when that operator arrives. -/
theorem yieldsTo_of_admits {op : BinaryOp} {top : Pending} (h : top.admits op.phrase = true) :
    top.yieldsTo op = false := by
  cases top with
  | operator op' =>
      simp only [admits, BinaryOp.precedence_phrase, decide_eq_true_eq] at h
      simpa [yieldsTo] using h
  | openParen => rfl
  | function f => rfl

theorem flatMap_emission_operators (ops : List BinaryOp) :
    (ops.map operator).flatMap emission = ops.map Token.operator := by
  induction ops with
  | nil => rfl
  | cons op rest ih => simp [emission, ih]

variable {ops : List BinaryOp} {stack : List Pending} {p : Pending → Bool}

/-- What is taken from the top of a stack stops at a symbol that stays. -/
theorem takeWhile_append_of_head {below : List Pending}
    (hbelow : ∀ top ∈ below.head?, p top = false) (stack : List Pending) :
    (stack ++ below).takeWhile p = stack.takeWhile p := by
  induction stack with
  | nil =>
      cases below with
      | nil => rfl
      | cons top rest => simp [hbelow top rfl]
  | cons top rest ih => rw [List.cons_append, List.takeWhile_cons, List.takeWhile_cons, ih]

theorem dropWhile_append_of_head {below : List Pending}
    (hbelow : ∀ top ∈ below.head?, p top = false) (stack : List Pending) :
    (stack ++ below).dropWhile p = stack.dropWhile p ++ below := by
  induction stack with
  | nil =>
      cases below with
      | nil => rfl
      | cons top rest => simp [hbelow top rfl]
  | cons top rest ih =>
      rw [List.cons_append, List.dropWhile_cons, List.dropWhile_cons, ih]
      split
      · rfl
      · rfl

theorem takeWhile_operators (hops : ∀ op ∈ ops, p (.operator op) = true)
    (hstack : ∀ top ∈ stack.head?, p top = false) :
    (ops.map operator ++ stack).takeWhile p = ops.map operator := by
  have hstop : stack.takeWhile p = [] := takeWhile_append_of_head hstack []
  rw [List.takeWhile_append_of_pos (by simpa using hops), hstop, List.append_nil]

theorem dropWhile_operators (hops : ∀ op ∈ ops, p (.operator op) = true)
    (hstack : ∀ top ∈ stack.head?, p top = false) :
    (ops.map operator ++ stack).dropWhile p = stack := by
  rw [List.dropWhile_append_of_pos (by simpa using hops)]
  exact dropWhile_append_of_head hstack []

end Pending

namespace Postfix

variable {limit : Nat} {stack : List Pending} {ops : List BinaryOp}

@[simp] theorem callDepth_operator (op : BinaryOp) :
    callDepth (.operator op :: stack) = callDepth stack :=
  List.countP_cons_of_neg (by simp [Pending.isFunction])

@[simp] theorem callDepth_openParen : callDepth (.openParen :: stack) = callDepth stack :=
  List.countP_cons_of_neg (by simp [Pending.isFunction])

@[simp] theorem callDepth_function (f : ElementaryFunction) :
    callDepth (.function f :: stack) = callDepth stack + 1 :=
  List.countP_cons_of_pos rfl

/-- An arriving operator sends off the operators that bind at least as tightly, down to a symbol
    that waits on. -/
theorem step_operator {op : BinaryOp} (hops : ∀ o ∈ ops, op.precedence ≤ o.precedence)
    (hstack : ∀ top ∈ stack.head?, top.admits op.phrase = true) (following : List Token) :
    step limit (ops.map .operator ++ stack) (.operator op) following =
      .ok (ops.map .operator, .operator op :: stack) := by
  have hyield : ∀ o ∈ ops, (Pending.operator o).yieldsTo op = true := by
    intro o ho
    simpa [Pending.yieldsTo] using hops o ho
  have hstay : ∀ top ∈ stack.head?, top.yieldsTo op = false :=
    fun top htop => Pending.yieldsTo_of_admits (hstack top htop)
  rw [step, Pending.takeWhile_operators hyield hstay, Pending.dropWhile_operators hyield hstay,
    Pending.flatMap_emission_operators]

/-- A call whose parentheses hold something and close is checked against the limit. -/
theorem checkCall_openParen {rest : List Token} (hcloses : closesAfter 0 rest = true)
    (hhead : rest.head? ≠ some .closeParen) (limit : Nat) (stack : List Pending)
    (f : ElementaryFunction) :
    checkCall limit stack f (.openParen :: rest) =
      if limit ≤ callDepth stack then .error (.nestingTooDeep limit) else .ok () := by
  rw [checkCall, hcloses, if_neg (by simp), if_neg hhead]

/-- A call passes its check when its parentheses hold something and close, and when it lies in few
    enough arguments. -/
theorem checkCall_eq_ok_iff {f : ElementaryFunction} {following : List Token} :
    checkCall limit stack f following = .ok () ↔
      ∃ rest, following = .openParen :: rest ∧ closesAfter 0 rest = true ∧
        rest.head? ≠ some .closeParen ∧ callDepth stack < limit := by
  constructor
  · intro h
    unfold checkCall at h
    split at h
    · rename_i rest
      by_cases hcloses : closesAfter 0 rest = false
      · rw [if_pos hcloses] at h
        cases h
      · by_cases hhead : rest.head? = some .closeParen
        · rw [if_neg hcloses, if_pos hhead] at h
          cases h
        · by_cases hdepth : limit ≤ callDepth stack
          · rw [if_neg hcloses, if_neg hhead, if_pos hdepth] at h
            cases h
          · exact ⟨rest, rfl, by simpa using hcloses, hhead, Nat.lt_of_not_le hdepth⟩
    · cases h
  · intro h
    rcases h with ⟨rest, rfl, hcloses, hhead, hdepth⟩
    rw [checkCall_openParen hcloses hhead, if_neg (Nat.not_le.mpr hdepth)]

/-- A function waits exactly when its call has passed the check. -/
theorem step_function_eq_ok_iff {f : ElementaryFunction} {following emitted : List Token}
    {left : List Pending} :
    step limit stack (.function f) following = .ok (emitted, left) ↔
      checkCall limit stack f following = .ok () ∧ emitted = [] ∧ left = .function f :: stack := by
  rw [step]
  constructor
  · intro h
    rcases except_bind_eq_ok_iff.mp h with ⟨⟨⟩, hcheck, hleft⟩
    cases hleft
    exact ⟨hcheck, rfl, rfl⟩
  · intro h
    rcases h with ⟨hcheck, rfl, rfl⟩
    rw [hcheck, except_ok_bind]
    rfl

theorem step_function {f : ElementaryFunction} {following : List Token}
    (hcheck : checkCall limit stack f following = .ok ()) :
    step limit stack (.function f) following = .ok ([], .function f :: stack) :=
  step_function_eq_ok_iff.mpr ⟨hcheck, rfl, rfl⟩

/-- A function is refused as its call is. -/
theorem step_function_of_error {f : ElementaryFunction} {following : List Token} {fault : Fault}
    (hcheck : checkCall limit stack f following = .error fault) :
    step limit stack (.function f) following = .error fault := by
  rw [step, hcheck, except_error_bind]

/-- A closing parenthesis sends off the operators above its opening one, and then what the opening
    one belongs to. -/
theorem step_closeParen (following : List Token) :
    step limit (ops.map .operator ++ .openParen :: stack) .closeParen following =
      .ok (ops.map .operator ++ (closeCall stack).1, (closeCall stack).2) := by
  have hops : ∀ op ∈ ops, (Pending.operator op).isOperator = true := fun op _ => rfl
  have hopen : ∀ top ∈ (Pending.openParen :: stack).head?, top.isOperator = false := by
    intro top htop
    cases htop
    rfl
  rw [step, closeGroup, Pending.dropWhile_operators hops hopen,
    Pending.takeWhile_operators hops hopen, Pending.flatMap_emission_operators]

/-- A closing parenthesis is refused when none is open. -/
theorem step_closeParen_operators (following : List Token) :
    step limit (ops.map .operator) .closeParen following = .error .mismatchedParenthesis := by
  have hempty : ∀ top ∈ ([] : List Pending).head?, top.isOperator = false := nofun
  have hdrop : (ops.map Pending.operator ++ []).dropWhile Pending.isOperator = [] :=
    Pending.dropWhile_operators (fun _ _ => rfl) hempty
  rw [List.append_nil] at hdrop
  rw [step, closeGroup, hdrop]

/-- A group closes when its opening parenthesis is found below operators only. -/
theorem closeGroup_eq_ok_iff {emitted : List Token} {left : List Pending} :
    closeGroup stack = .ok (emitted, left) ↔
      ∃ rest, stack.dropWhile Pending.isOperator = .openParen :: rest ∧
        emitted = (stack.takeWhile Pending.isOperator).flatMap Pending.emission ++
          (closeCall rest).1 ∧ left = (closeCall rest).2 := by
  rw [closeGroup]
  constructor
  · intro h
    split at h
    · rename_i rest hrest
      cases h
      exact ⟨rest, hrest, rfl, rfl⟩
    · cases h
  · intro h
    rcases h with ⟨rest, hrest, rfl, rfl⟩
    rw [hrest]

/-- A symbol that admits a phrase is no function, so nothing is called when the phrase closes. -/
theorem closeCall_of_admits {phrase : Phrase}
    (hstack : ∀ top ∈ stack.head?, top.admits phrase = true) : closeCall stack = ([], stack) := by
  cases stack with
  | nil => rfl
  | cons top rest =>
      cases top with
      | operator op => rfl
      | openParen => rfl
      | function f => exact absurd (hstack _ rfl) (by simp [Pending.admits])

/-- At the end the operators that still wait are sent off. -/
theorem finish_operators : finish (ops.map .operator) = .ok (ops.map .operator) := by
  apply finish_eq_ok_iff.mpr
  constructor
  · simp [Pending.isOperator]
  · exact (Pending.flatMap_emission_operators ops).symm

/-- An advance over all tokens that leaves only operators is a conversion. -/
theorem ofInfix_of_advance {tokens emitted : List Token}
    (h : advance limit [] [] tokens = .ok (emitted, ops.map .operator)) :
    ofInfix limit tokens = .ok (emitted ++ ops.map .operator) := by
  rw [ofInfix_eq, h, except_ok_bind]
  dsimp only
  rw [finish_operators]
  rfl

end Postfix

end SymbolicCalculus
