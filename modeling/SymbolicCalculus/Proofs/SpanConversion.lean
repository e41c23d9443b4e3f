/-
Module: SymbolicCalculus.Proofs.SpanConversion
Layer: Proofs
Purpose: One run over all tokens converts span by span. `Postfix.run` keeps called functions on the
  one stack it has and never starts anew; the conversion by spans does. The two agree on all tokens,
  in the tokens they give and in the fault they come to. A frame says what the one stack holds below
  a span and what is read behind it, so that a run inside an argument is the conversion of that
  argument, followed by all that comes after. Since a run has no fallback, the fallback of the
  conversion by spans is never reached.
Trusted boundary: none
Main exports: Span.Frame, Span.run_of_frame, Span.convert_eq
-/
import SymbolicCalculus.Proofs.Acceptance
import SymbolicCalculus.Proofs.Spans

namespace SymbolicCalculus

/-- The token that a waiting symbol was. -/
def Pending.token : Pending → Token
  | .operator op => .operator op
  | .openParen => .openParen
  | .function f => .function f

theorem Pending.map_token_operators (ops : List BinaryOp) :
    (ops.map operator).map token = ops.map Token.operator := by
  rw [List.map_map]
  rfl

namespace Span

variable {limit depth : Nat}

/-! ### Calls -/

/-- A token that does not close the parenthesis leaves the others to do so. -/
theorem closesAfter_cons {opened : Nat} {token : Token} (rest : List Token)
    (h : ¬ (token = .closeParen ∧ opened = 0)) :
    Postfix.closesAfter opened (token :: rest) =
      Postfix.closesAfter (openedBehind opened token) rest := by
  cases token with
  | closeParen =>
      cases opened with
      | zero => exact absurd ⟨rfl, rfl⟩ h
      | succ opened => rfl
  | literal _ | identifier _ | function _ | operator _ | openParen => cases opened <;> rfl

/-- A parenthesis further out is not closed by balanced tokens, but in what follows them. -/
theorem closesAfter_append_of_balanced {opened : Nat} {tokens : List Token}
    (h : balanced opened tokens = true) (outer : Nat) (following : List Token) :
    Postfix.closesAfter (opened + outer) (tokens ++ following) =
      Postfix.closesAfter outer following := by
  induction tokens generalizing opened with
  | nil => rw [balanced_nil.mp h, Nat.zero_add, List.nil_append]
  | cons token rest ih =>
      rcases balanced_cons.mp h with ⟨hopen, hrest⟩
      have houter : ¬ (token = .closeParen ∧ opened + outer = 0) :=
        fun hclose => hopen ⟨hclose.1, Nat.eq_zero_of_add_eq_zero_right hclose.2⟩
      rw [List.cons_append, closesAfter_cons _ houter, openedBehind_add hopen, ih hrest]

/-- A parenthesis is closed in what follows exactly when its span can be split off. -/
theorem closesAfter_eq_isSome_split (opened : Nat) (tokens : List Token) :
    Postfix.closesAfter opened tokens = (split opened tokens).isSome := by
  induction tokens generalizing opened with
  | nil => cases opened <;> rfl
  | cons token rest ih =>
      rw [split]
      split
      · rename_i hclose
        rcases hclose with ⟨rfl, rfl⟩
        rfl
      · rename_i hopen
        rw [closesAfter_cons rest hopen, ih]
        cases split (openedBehind opened token) rest <;> rfl

/-- A call is checked by splitting off its argument, and then against the limit. -/
theorem checkCall_eq (limit : Nat) (stack : List Pending) (f : ElementaryFunction)
    (following : List Token) :
    Postfix.checkCall limit stack f following =
      argument f following >>= fun _ =>
        if limit ≤ Postfix.callDepth stack then Except.error (.nestingTooDeep limit)
        else Except.ok () := by
  cases following with
  | nil => rfl
  | cons token rest =>
      cases token with
      | openParen =>
          rw [Postfix.checkCall, closesAfter_eq_isSome_split, argument]
          cases hsplit : split 0 rest with
          | none => rfl
          | some parts =>
              rcases parts with ⟨span, after⟩
              rcases split_eq_some_iff.mp hsplit with ⟨rfl, hbalanced⟩
              cases span with
              | nil => rfl
              | cons first others =>
                  have hfirst : first ≠ .closeParen := fun heq =>
                    (balanced_cons.mp hbalanced).1 ⟨heq, rfl⟩
                  simp [hfirst]
      | literal _ | identifier _ | function _ | operator _ | closeParen => rfl

/-! ### Stacks of a span -/

/-- A stack without functions holds only operators, or operators above a parenthesis. -/
theorem operators_or_openParen {stack : List Pending}
    (h : ∀ top ∈ stack, top.isFunction = false) :
    (∃ ops : List BinaryOp, stack = ops.map .operator) ∨
      ∃ (ops : List BinaryOp) (below : List Pending),
        stack = ops.map .operator ++ .openParen :: below := by
  induction stack with
  | nil => exact .inl ⟨[], rfl⟩
  | cons top rest ih =>
      cases top with
      | operator op =>
          rcases ih fun top htop => h top (List.mem_cons_of_mem _ htop) with
            ⟨ops, rfl⟩ | ⟨ops, below, rfl⟩
          · exact .inl ⟨op :: ops, rfl⟩
          · exact .inr ⟨op :: ops, below, rfl⟩
      | openParen => exact .inr ⟨[], rest, rfl⟩
      | function f => exact absurd (h _ List.mem_cons_self) (by simp [Pending.isFunction])

theorem count_operators (ops : List BinaryOp) :
    (ops.map Pending.operator).count .openParen = 0 := by
  simp [List.count_eq_zero]

/-- Under a parenthesis that belongs to no function nothing is called. -/
theorem closeCall_of_head {stack : List Pending} (h : ∀ top ∈ stack.head?, top.isFunction = false) :
    Postfix.closeCall stack = ([], stack) := by
  cases stack with
  | nil => rfl
  | cons top rest =>
      cases top with
      | operator _ | openParen => rfl
      | function f => exact absurd (h _ rfl) (by simp [Pending.isFunction])

/-- A span lies in as many arguments as the stack below it says. -/
theorem callDepth_append {stack : List Pending} (h : ∀ top ∈ stack, top.isFunction = false)
    (base : List Pending) : Postfix.callDepth (stack ++ base) = Postfix.callDepth base := by
  rw [Postfix.callDepth, List.countP_append, List.countP_eq_zero.mpr (by simpa using h),
    Nat.zero_add, Postfix.callDepth]

/-- What is left at the end of a span is what the run sends off at the end. -/
theorem leftover_eq_finish {stack : List Pending} (h : ∀ top ∈ stack, top.isFunction = false) :
    leftover (stack.map Pending.token) = Postfix.finish stack := by
  rcases operators_or_openParen h with ⟨ops, rfl⟩ | ⟨ops, below, rfl⟩
  · rw [Pending.map_token_operators, leftover_operators, Postfix.finish_operators]
  · rw [List.map_append, Pending.map_token_operators, List.map_cons, Pending.token,
      leftover_openParen, Postfix.finish]
    simp [Pending.isOperator]

/-! ### A run inside a span -/

/-- A run as a computation that might also stop at a fallback. -/
def run (limit : Nat) (stack : List Pending) (tokens : List Token) : Except Stop (List Token) :=
  (Postfix.run limit stack tokens).mapError .fault

theorem run_cons_of_ok {stack left : List Pending} {token : Token} {rest emitted : List Token}
    (h : Postfix.step limit stack token rest = .ok (emitted, left)) :
    run limit stack (token :: rest) = do
      let later ← run limit left rest
      return emitted ++ later := by
  rw [run, Postfix.run, h, except_ok_bind, run]
  dsimp only
  cases Postfix.run limit left rest <;> rfl

theorem run_cons_of_error {stack : List Pending} {token : Token} {rest : List Token} {fault : Fault}
    (h : Postfix.step limit stack token rest = .error fault) :
    run limit stack (token :: rest) = .error (.fault fault) := by
  rw [run, Postfix.run, h]
  rfl

/-- What lies around a span: the stack below it, the tokens behind it, and how the run goes on with
    what the span gives. Around all tokens lies nothing; around an argument lies its call. -/
inductive Frame (limit : Nat) :
    List Pending → List Token → (List Token → Except Stop (List Token)) → Prop where
  | whole : Frame limit [] [] .ok
  | argument (f : ElementaryFunction) (stack : List Pending) (after : List Token) :
      Frame limit (.openParen :: .function f :: stack) (.closeParen :: after) fun converted => do
        let later ← run limit stack after
        return converted ++ .function f :: later

variable {base stack : List Pending} {tokens tail : List Token}
  {resume : List Token → Except Stop (List Token)}

namespace Frame

/-- What a span emits early stands before all that comes later. -/
theorem resume_append (h : Frame limit base tail resume) (first later : List Token) :
    resume (first ++ later) = do
      let output ← resume later
      return first ++ output := by
  cases h with
  | whole => rfl
  | argument f stack after =>
      cases run limit stack after with
      | error stop => rfl
      | ok output =>
          exact congrArg Except.ok (List.append_assoc first later (.function f :: output))

theorem bind_append (h : Frame limit base tail resume) (first : List Token)
    (later : Except Stop (List Token)) :
    (do
      let output ← later
      return first ++ output) >>= resume = do
        let output ← later >>= resume
        return first ++ output := by
  cases later with
  | error stop => rfl
  | ok later => exact h.resume_append first later

/-- No operator takes anything from below its span. -/
theorem head_not_yieldsTo (h : Frame limit base tail resume) (op : BinaryOp) :
    ∀ top ∈ base.head?, top.yieldsTo op = false := by
  cases h with
  | whole => nofun
  | argument f stack after =>
      intro top htop
      cases htop
      rfl

/-- The latest symbol below a span is no function, as its parenthesis stands above it. -/
theorem head_append_not_function (h : Frame limit base tail resume)
    (hstack : ∀ top ∈ stack, top.isFunction = false) :
    ∀ top ∈ (stack ++ base).head?, top.isFunction = false := by
  intro top htop
  cases stack with
  | cons first rest =>
      cases htop
      exact hstack _ List.mem_cons_self
  | nil =>
      cases h with
      | whole => cases htop
      | argument f stack after =>
          cases htop
          rfl

/-- Behind a span no parenthesis opens at once. -/
theorem head_ne_openParen (h : Frame limit base tail resume) :
    tail.head? ≠ some .openParen := by
  cases h <;> nofun

end Frame

/-! ### Both conversions agree -/

/-- A waiting symbol yields as its token does. -/
theorem yieldsTo_token (op : BinaryOp) (top : Pending) :
    yieldsTo op top.token = top.yieldsTo op := by
  cases top <;> rfl

theorem takeWhile_yieldsTo (op : BinaryOp) (stack : List Pending) :
    (stack.map Pending.token).takeWhile (yieldsTo op) =
      (stack.takeWhile (·.yieldsTo op)).map Pending.token := by
  rw [List.takeWhile_map, show yieldsTo op ∘ Pending.token = _ from funext (yieldsTo_token op)]

theorem dropWhile_yieldsTo (op : BinaryOp) (stack : List Pending) :
    (stack.map Pending.token).dropWhile (yieldsTo op) =
      (stack.dropWhile (·.yieldsTo op)).map Pending.token := by
  rw [List.dropWhile_map, show yieldsTo op ∘ Pending.token = _ from funext (yieldsTo_token op)]

/-- What yields is sent off as it is. -/
theorem flatMap_emission_of_yieldsTo {op : BinaryOp} {waiting : List Pending}
    (h : ∀ top ∈ waiting, top.yieldsTo op = true) :
    waiting.flatMap Pending.emission = waiting.map Pending.token := by
  induction waiting with
  | nil => rfl
  | cons top rest ih =>
      rw [List.flatMap_cons, List.map_cons, ih fun top htop => h top (List.mem_cons_of_mem _ htop)]
      cases top with
      | operator other => rfl
      | openParen => exact absurd (h _ List.mem_cons_self) Bool.false_ne_true
      | function f => exact absurd (h _ List.mem_cons_self) Bool.false_ne_true

/-- What an operator sends off, and what waits on, is seen on the stack of its span alone. -/
theorem step_operator (hframe : Frame limit base tail resume) (op : BinaryOp)
    (following : List Token) :
    Postfix.step limit (stack ++ base) (.operator op) following =
      .ok ((stack.map Pending.token).takeWhile (yieldsTo op),
        (.operator op :: stack.dropWhile (·.yieldsTo op)) ++ base) := by
  have hhead := hframe.head_not_yieldsTo op
  rw [Postfix.step, Pending.takeWhile_append_of_head hhead, Pending.dropWhile_append_of_head hhead,
    takeWhile_yieldsTo,
    flatMap_emission_of_yieldsTo (List.all_eq_true.mp List.all_takeWhile)]
  rfl

/-- One token that is no function keeps the agreement. -/
theorem run_of_frame_cons {left : List Pending} {token : Token} {emitted rest : List Token}
    (hframe : Frame limit base tail resume)
    (hstep : Postfix.step limit (stack ++ base) token (rest ++ tail) = .ok (emitted, left ++ base))
    (hspan : convertRest limit depth (stack.map Pending.token) (token :: rest) = do
      let later ← convertRest limit depth (left.map Pending.token) rest
      return emitted ++ later)
    (hrest : run limit (left ++ base) (rest ++ tail) =
      convertRest limit depth (left.map Pending.token) rest >>= resume) :
    run limit (stack ++ base) (token :: rest ++ tail) =
      convertRest limit depth (stack.map Pending.token) (token :: rest) >>= resume := by
  rw [List.cons_append, run_cons_of_ok hstep, hspan, hframe.bind_append, hrest]

/-- Below the end of a span that has nothing open wait operators only. -/
theorem run_of_frame_nil (hframe : Frame limit base tail resume)
    (hstack : ∀ top ∈ stack, top.isFunction = false)
    (hfits : Fits tail (stack.count .openParen) []) :
    run limit (stack ++ base) tail =
      convertRest limit depth (stack.map Pending.token) [] >>= resume := by
  rw [convertRest, leftover_eq_finish hstack]
  cases hframe with
  | whole =>
      rw [List.append_nil, run, Postfix.run]
      cases Postfix.finish stack <;> rfl
  | argument f stack' after =>
      rcases hfits with hnil | hbalanced
      · cases hnil
      · rcases operators_or_openParen hstack with ⟨ops, rfl⟩ | ⟨ops, below, rfl⟩
        · rw [run_cons_of_ok (Postfix.step_closeParen after), Postfix.finish_operators]
          show (run limit stack' after >>= fun later =>
              pure (ops.map .operator ++ [.function f] ++ later)) =
            run limit stack' after >>= fun later => pure (ops.map .operator ++ .function f :: later)
          simp only [List.append_assoc, List.singleton_append]
        · simp [balanced_nil] at hbalanced

/-- A parenthesis closes as it does in its span alone. -/
theorem run_of_frame_closeParen {rest : List Token} (hframe : Frame limit base tail resume)
    (hstack : ∀ top ∈ stack, top.isFunction = false)
    (hfits : Fits tail (stack.count .openParen) (.closeParen :: rest))
    (ih : ∀ left : List Pending, (∀ top ∈ left, top.isFunction = false) →
      Fits tail (left.count .openParen) rest →
      run limit (left ++ base) (rest ++ tail) =
        convertRest limit depth (left.map Pending.token) rest >>= resume) :
    run limit (stack ++ base) (.closeParen :: rest ++ tail) =
      convertRest limit depth (stack.map Pending.token) (.closeParen :: rest) >>= resume := by
  rcases operators_or_openParen hstack with ⟨ops, rfl⟩ | ⟨ops, below, rfl⟩
  · -- nothing is open in the span, so it is no argument
    have htail : tail = [] := by
      rcases hfits with htail | hbalanced
      · exact htail
      · exact absurd ⟨rfl, count_operators ops⟩ (balanced_cons.mp hbalanced).1
    cases hframe with
    | whole =>
        have hstep : Postfix.step limit (ops.map .operator ++ []) .closeParen (rest ++ []) =
            .error .mismatchedParenthesis := by
          rw [List.append_nil, Postfix.step_closeParen_operators]
        rw [List.cons_append, run_cons_of_error hstep, convertRest_closeParen,
          Pending.map_token_operators, close_operators]
        rfl
    | argument f stack' after => cases htail
  · have hbelow : ∀ top ∈ below, top.isFunction = false := fun top htop =>
      hstack top (List.mem_append_right _ (List.mem_cons_of_mem _ htop))
    have hcall : Postfix.closeCall (below ++ base) = ([], below ++ base) :=
      closeCall_of_head (hframe.head_append_not_function hbelow)
    apply run_of_frame_cons hframe _ _ (ih below hbelow _)
    · exact ops.map .operator
    · rw [List.append_assoc, List.cons_append, Postfix.step_closeParen, hcall, List.append_nil]
    · rw [convertRest_closeParen, List.map_append, Pending.map_token_operators, List.map_cons,
        Pending.token, close_openParen]
      rfl
    · rw [List.count_append, count_operators, Nat.zero_add, List.count_cons_self] at hfits
      exact hfits.rest

/-- A function is converted as its argument is, if both conversions agree on the argument and on
    what follows it. -/
theorem run_of_frame_function {f : ElementaryFunction} {rest : List Token}
    (hframe : Frame limit base tail resume)
    (hstack : ∀ top ∈ stack, top.isFunction = false)
    (hfits : Fits tail (stack.count .openParen) (.function f :: rest))
    (ih : ∀ {span after : List Token}, argument f rest = .ok (span, after) →
      run limit (.openParen :: .function f :: (stack ++ base))
          (span ++ .closeParen :: (after ++ tail)) =
          (convertRest limit (Postfix.callDepth base + 1) [] span >>= fun converted => do
            let later ← run limit (stack ++ base) (after ++ tail)
            return converted ++ .function f :: later) ∧
        run limit (stack ++ base) (after ++ tail) =
          convertRest limit (Postfix.callDepth base) (stack.map Pending.token) after >>= resume) :
    run limit (stack ++ base) (.function f :: rest ++ tail) =
      convertRest limit (Postfix.callDepth base) (stack.map Pending.token) (.function f :: rest) >>=
        resume := by
  have hcheck := checkCall_eq limit (stack ++ base) f (rest ++ tail)
  rw [argument_append f hfits.rest hframe.head_ne_openParen, callDepth_append hstack] at hcheck
  rw [convertRest_function, List.cons_append]
  cases hargument : argument f rest with
  | error fault =>
      rw [hargument] at hcheck
      exact run_cons_of_error (Postfix.step_function_of_error hcheck)
  | ok parts =>
      rcases parts with ⟨span, after⟩
      rw [hargument] at hcheck
      rcases eq_of_argument hargument with ⟨rfl, -⟩
      rcases ih hargument with ⟨hspan, hafter⟩
      show _ = (convert limit (Postfix.callDepth base + 1) span >>= fun converted => _) >>= resume
      rw [convert]
      split
      · rename_i hdeep
        have hstep : Postfix.step limit (stack ++ base) (.function f)
            (.openParen :: (span ++ .closeParen :: after) ++ tail) =
            .error (.nestingTooDeep limit) := by
          apply Postfix.step_function_of_error
          rw [hcheck]
          exact if_pos (Nat.lt_succ_iff.mp hdeep)
        exact run_cons_of_error hstep
      · rename_i hdeep
        have hstep : Postfix.step limit (stack ++ base) (.function f)
            (.openParen :: (span ++ .closeParen :: after) ++ tail) =
            .ok ([], .function f :: (stack ++ base)) := by
          apply Postfix.step_function
          rw [hcheck]
          exact if_neg fun hle => hdeep (Nat.lt_succ_of_le hle)
        rw [run_cons_of_ok hstep, List.cons_append, run_cons_of_ok rfl, List.append_assoc,
          List.cons_append, hspan, hafter]
        simp only [List.nil_append, bind_pure, bind_assoc]
        refine bind_congr fun converted => ?_
        have happend := hframe.bind_append (converted ++ [.function f])
          (convertRest limit (Postfix.callDepth base) (stack.map Pending.token) after)
        simpa only [List.append_assoc, List.singleton_append, bind_assoc, pure_bind]
          using happend.symm

/-- Inside a frame, a run is the conversion of the span, followed by what comes after. The stack of
    the span stands above that of the frame and holds no function, since a called function goes
    below with its parenthesis. -/
theorem run_of_frame (hframe : Frame limit base tail resume)
    (hstack : ∀ top ∈ stack, top.isFunction = false)
    (hfits : Fits tail (stack.count .openParen) tokens) :
    run limit (stack ++ base) (tokens ++ tail) =
      convertRest limit (Postfix.callDepth base) (stack.map Pending.token) tokens >>= resume := by
  -- on the number of tokens: an argument is shorter than its call, and so is what follows it
  induction hlength : tokens.length using Nat.strongRecOn
    generalizing base stack tokens tail resume with
  | ind n ih =>
      subst hlength
      cases tokens with
      | nil => exact run_of_frame_nil hframe hstack hfits
      | cons token rest =>
          have ihrest : ∀ left : List Pending, (∀ top ∈ left, top.isFunction = false) →
              Fits tail (left.count .openParen) rest →
              run limit (left ++ base) (rest ++ tail) =
                convertRest limit (Postfix.callDepth base) (left.map Pending.token) rest >>=
                  resume :=
            fun left hleft hrest => ih _ (Nat.lt_succ_self _) hframe hleft hrest rfl
          have hrest : Fits tail (openedBehind (stack.count .openParen) token) rest := hfits.rest
          cases token with
          | literal _ | identifier _ =>
              exact run_of_frame_cons hframe rfl (convertRest_value _ rest rfl)
                (ihrest stack hstack hrest)
          | function f =>
              apply run_of_frame_function hframe hstack hfits
              intro span after hargument
              have hlength := length_of_argument hargument
              rw [List.length_cons] at ih
              constructor
              · -- the argument starts a stack of its own, and the call is the frame around it
                have hspan := ih span.length (by omega)
                  (.argument f (stack ++ base) (after ++ tail)) (List.forall_mem_nil _)
                  (.inr (eq_of_argument hargument).2) rfl
                rw [Postfix.callDepth_openParen, Postfix.callDepth_function,
                  callDepth_append hstack] at hspan
                exact hspan
              · exact ih after.length (by omega) hframe hstack (hrest.after_argument hargument) rfl
          | operator op =>
              apply run_of_frame_cons hframe (step_operator hframe op _)
              · rw [convertRest_operator, dropWhile_yieldsTo]
                rfl
              · apply ihrest
                · intro top htop
                  rcases List.mem_cons.mp htop with rfl | htop
                  · rfl
                  · exact hstack top ((List.dropWhile_sublist _).subset htop)
                · rw [List.count_cons_of_ne (by simp), Postfix.count_dropWhile_operators rfl]
                  exact hrest
          | openParen =>
              have hopen : ∀ top ∈ Pending.openParen :: stack, top.isFunction = false :=
                List.forall_mem_cons.mpr ⟨rfl, hstack⟩
              have hcount : Fits tail ((Pending.openParen :: stack).count .openParen) rest := by
                rw [List.count_cons_self]
                exact hrest
              have hopened := ihrest (.openParen :: stack) hopen hcount
              have hstep : Postfix.step limit (stack ++ base) .openParen (rest ++ tail) =
                  .ok ([], (.openParen :: stack) ++ base) := rfl
              apply run_of_frame_cons hframe hstep _ hopened
              rw [convertRest_openParen]
              exact (bind_pure _).symm
          | closeParen => exact run_of_frame_closeParen hframe hstack hfits ihrest

/-- The conversion in one run is the conversion by spans, on all tokens and in every fault. -/
theorem convert_eq (limit : Nat) (tokens : List Token) :
    convert limit 0 tokens = (Postfix.ofInfix limit tokens).mapError .fault := by
  have hstack : ∀ top ∈ ([] : List Pending), top.isFunction = false := List.forall_mem_nil _
  have hwhole : run limit ([] ++ []) (tokens ++ []) = convertRest limit 0 [] tokens >>= .ok :=
    run_of_frame .whole hstack (.inl rfl)
  rw [List.append_nil, List.append_nil, run] at hwhole
  rw [convert, if_neg (Nat.not_lt_zero limit), Postfix.ofInfix, hwhole]
  exact (bind_pure _).symm

end Span

end SymbolicCalculus
