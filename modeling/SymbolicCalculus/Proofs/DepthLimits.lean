/-
Module: SymbolicCalculus.Proofs.DepthLimits
Layer: Proofs
Purpose: What raising the limit of nesting can change. A run under the lower limit either fails for
  just that limit, or it fails for no limit at all and is the same run under the higher one, with
  the same records. The stages look at the limit in different places: at the function arguments
  around a token, at the height of a subtree, and at the nodes above the one that is differentiated.
  The relation holds of each such look and is kept when runs are put together, so it holds of every
  stage and of the whole way from a text to the text of its derivative.
Trusted boundary: none
Main exports: Logged.KeptAbove, Logged.KeptAbove.bind, Settings.withMaxDepth,
  Postfix.keptAbove_ofInfix, Expr.keptAbove_ofPostfix, Expr.keptAbove_derivative,
  keptAbove_of_limit_le
-/
import SymbolicCalculus.Proofs.StageFaults

namespace SymbolicCalculus

namespace Logged

variable {ε α β : Type} {cause : ε → Fault} {limit : Nat}

/-- `KeptAbove cause limit low high` says what `high` has to do with `low`, which is the same under
    the lower `limit`. A failure is about the fault that `cause` finds in it. -/
inductive KeptAbove (cause : ε → Fault) (limit : Nat) : Logged ε α → Logged ε α → Prop where
  /-- The lower limit is exceeded and named, and nothing is said about the higher. -/
  | tooDeep {low high : Logged ε α} {failure : ε} : low.outcome = .error failure →
      cause failure = .nestingTooDeep limit → KeptAbove cause limit low high
  /-- No limit is exceeded, and nothing changes. -/
  | same {x : Logged ε α} :
      (∀ failure, x.outcome = .error failure → ∀ n, cause failure ≠ .nestingTooDeep n) →
      KeptAbove cause limit x x

namespace KeptAbove

/-- Whatever comes to a value is kept. -/
theorem of_outcome_ok {x : Logged ε α} {a : α} (h : x.outcome = .ok a) :
    KeptAbove cause limit x x := by
  apply same
  intro failure hfailure
  rw [h] at hfailure
  cases hfailure

/-- Runs that are put together are kept if their parts are. -/
theorem bind {x y : Logged ε α} {f g : α → Logged ε β} (h : KeptAbove cause limit x y)
    (hrest : ∀ a, KeptAbove cause limit (f a) (g a)) :
    KeptAbove cause limit (x >>= f) (y >>= g) := by
  cases h with
  | tooDeep hlow hcause =>
      apply tooDeep _ hcause
      rw [outcome_bind, hlow, except_error_bind]
  | same hx =>
      rcases x with ⟨records, failure | a⟩
      · apply same
        intro failure' hfailure
        cases hfailure
        exact hx failure rfl
      · -- the rest is compared behind the records made so far, which both runs share
        have ha := hrest a
        generalize hf : f a = low at ha
        generalize hg : g a = high at ha
        cases ha with
        | tooDeep hlow hcause =>
            apply tooDeep _ hcause
            rw [outcome_bind, except_ok_bind, hf, hlow]
        | same hlow =>
            have hbind : (⟨records, .ok a⟩ : Logged ε α) >>= f = ⟨records, .ok a⟩ >>= g := by
              change (⟨records ++ (f a).records, (f a).outcome⟩ : Logged ε β) =
                ⟨records ++ (g a).records, (g a).outcome⟩
              rw [hf, hg]
            rw [← hbind]
            apply same
            rw [outcome_bind, except_ok_bind, hf]
            exact hlow

/-- A rule that is applied at the end changes nothing. -/
theorem bind_pure {x y : Logged ε α} {rule : α → β} (h : KeptAbove cause limit x y) :
    KeptAbove cause limit (x >>= fun a => pure (rule a)) (y >>= fun a => pure (rule a)) :=
  h.bind fun a => of_outcome_ok (outcome_pure (rule a))

/-- Steps without records are put together in the same way. -/
theorem lift_bind {x y : Except ε α} {f g : α → Except ε β}
    (h : KeptAbove cause limit (lift x) (lift y))
    (hrest : ∀ a, KeptAbove cause limit (lift (f a)) (lift (g a))) :
    KeptAbove cause limit (lift (x >>= f)) (lift (y >>= g)) := by
  have hlift : ∀ (z : Except ε α) (k : α → Except ε β),
      lift (z >>= k) = lift z >>= fun a => lift (k a) := by
    intro z k
    cases z <;> rfl
  rw [hlift, hlift]
  exact h.bind hrest

/-- What is said around a fault does not hide it. -/
theorem mapError {x y : Logged Fault α} (wrap : Fault → Failure)
    (hwrap : ∀ fault, (wrap fault).fault = fault) (h : KeptAbove id limit x y) :
    KeptAbove Failure.fault limit (x.mapError wrap) (y.mapError wrap) := by
  cases h with
  | tooDeep hlow hcause =>
      rename_i fault
      have hfailure : (x.mapError wrap).outcome = .error (wrap fault) := by
        rw [outcome_mapError, hlow]
        rfl
      exact tooDeep hfailure ((hwrap fault).trans hcause)
  | same hx =>
      rcases x with ⟨records, fault | a⟩
      · apply same
        intro failure hfailure
        cases hfailure
        rw [hwrap]
        exact hx fault rfl
      · exact of_outcome_ok rfl

/-- A run that comes to a value under the lower limit is the same under the higher. -/
theorem eq_of_outcome_ok {low high : Logged ε α} {a : α} (h : KeptAbove cause limit low high)
    (ha : low.outcome = .ok a) : high = low := by
  cases h with
  | tooDeep hlow _ =>
      rw [ha] at hlow
      cases hlow
  | same _ => rfl

end KeptAbove

end Logged

open Logged (KeptAbove)

variable {limit limit' : Nat}

namespace Postfix

/-- A call is refused for the limit only where it lies in as many arguments. -/
theorem keptAbove_checkCall (h : limit ≤ limit') (stack : List Pending) (f : ElementaryFunction)
    (following : List Token) :
    KeptAbove id limit (Logged.lift (checkCall limit stack f following))
      (Logged.lift (checkCall limit' stack f following)) := by
  unfold checkCall
  split
  · split
    · exact .same (by simp)
    · split
      · exact .same (by simp)
      · by_cases hdepth : limit ≤ callDepth stack
        · rw [if_pos hdepth]
          exact .tooDeep rfl rfl
        · rw [if_neg hdepth, if_neg fun hdepth' => hdepth (Nat.le_trans h hdepth')]
          exact .of_outcome_ok rfl
  · exact .same (by simp)

theorem keptAbove_step (h : limit ≤ limit') (stack : List Pending) (token : Token)
    (following : List Token) :
    KeptAbove id limit (Logged.lift (step limit stack token following))
      (Logged.lift (step limit' stack token following)) := by
  cases token with
  | literal value => exact .of_outcome_ok rfl
  | identifier name => exact .of_outcome_ok rfl
  | function f =>
      rw [step, step]
      exact (keptAbove_checkCall h stack f following).lift_bind fun _ => .of_outcome_ok rfl
  | operator op => exact .of_outcome_ok rfl
  | openParen => exact .of_outcome_ok rfl
  | closeParen =>
      apply KeptAbove.same
      intro fault hfault
      rw [eq_mismatchedParenthesis_of_closeGroup hfault]
      nofun

theorem keptAbove_run (h : limit ≤ limit') (stack : List Pending) (tokens : List Token) :
    KeptAbove id limit (Logged.lift (run limit stack tokens))
      (Logged.lift (run limit' stack tokens)) := by
  induction tokens generalizing stack with
  | nil =>
      apply KeptAbove.same
      intro fault hfault
      rw [eq_mismatchedParenthesis_of_finish hfault]
      nofun
  | cons token rest ih =>
      rw [run, run]
      apply (keptAbove_step h stack token rest).lift_bind
      intro taken
      exact (ih taken.2).lift_bind fun _ => .of_outcome_ok rfl

theorem keptAbove_ofInfix (h : limit ≤ limit') (tokens : List Token) :
    KeptAbove id limit (Logged.lift (ofInfix limit tokens))
      (Logged.lift (ofInfix limit' tokens)) :=
  keptAbove_run h [] tokens

theorem keptAbove_reorder (h : limit ≤ limit') (tokens : List Token) :
    KeptAbove id limit (reorder limit tokens) (reorder limit' tokens) :=
  (keptAbove_ofInfix h tokens).bind fun _ => .of_outcome_ok rfl

end Postfix

namespace Operand

/-- An operand is refused for the limit only where it is higher. -/
theorem keptAbove_push (h : limit ≤ limit') (stack : List Operand) (token : Token) :
    KeptAbove id limit (Logged.lift (push limit stack token))
      (Logged.lift (push limit' stack token)) := by
  have hbuild : KeptAbove id limit (Logged.lift (build stack token))
      (Logged.lift (build stack token)) := by
    apply KeptAbove.same
    intro fault hfault
    rcases of_build hfault with rfl | ⟨rfl, -⟩
    · nofun
    · nofun
  apply hbuild.lift_bind
  rintro ⟨operand, rest⟩
  dsimp only
  by_cases hdepth : operand.depth ≤ limit
  · rw [if_pos hdepth, if_pos (Nat.le_trans hdepth h)]
    exact .of_outcome_ok rfl
  · rw [if_neg hdepth]
    exact .tooDeep rfl rfl

theorem keptAbove_foldlM_push (h : limit ≤ limit') (stack : List Operand) (tokens : List Token) :
    KeptAbove id limit (Logged.lift (tokens.foldlM (push limit) stack))
      (Logged.lift (tokens.foldlM (push limit') stack)) := by
  induction tokens generalizing stack with
  | nil => exact .of_outcome_ok rfl
  | cons token rest ih =>
      rw [List.foldlM_cons, List.foldlM_cons]
      exact (keptAbove_push h stack token).lift_bind ih

end Operand

/-- The same settings with another limit. -/
def Settings.withMaxDepth (settings : Settings) (limit : Nat) : Settings :=
  { settings with maxDepth := limit }

namespace Expr

theorem keptAbove_ofPostfix (h : limit ≤ limit') (tokens : List Token) :
    KeptAbove id limit (Logged.lift (ofPostfix limit tokens))
      (Logged.lift (ofPostfix limit' tokens)) := by
  apply (Operand.keptAbove_foldlM_push h [] tokens).lift_bind
  intro stack
  apply KeptAbove.same
  intro fault hfault
  rcases Operand.of_finish hfault with rfl | ⟨operand, rfl⟩
  · nofun
  · nofun

theorem keptAbove_parse (h : limit ≤ limit') (tokens : List Token) :
    KeptAbove id limit (parse limit tokens) (parse limit' tokens) :=
  (Postfix.keptAbove_reorder h tokens).bind fun reordered => keptAbove_ofPostfix h reordered

/-- Cutting a text does not depend on the limit. -/
theorem keptAbove_tokenize (limit : Nat) (text : String) :
    KeptAbove id limit (Logged.lift (Token.tokenize text)) (Logged.lift (Token.tokenize text)) := by
  apply KeptAbove.same
  intro fault hfault
  cases Token.ofCutting_of_tokenize hfault with
  | unexpectedCharacter _ _ | literalOutOfRange _ => nofun

theorem keptAbove_readPostfix (h : limit ≤ limit') (text : String) :
    KeptAbove id limit (Postfix.read limit text) (Postfix.read limit' text) :=
  (keptAbove_tokenize limit text).bind fun tokens => Postfix.keptAbove_reorder h tokens

theorem keptAbove_read (h : limit ≤ limit') (text : String) :
    KeptAbove Failure.fault limit (read limit text) (read limit' text) := by
  have htokens := KeptAbove.mapError (Failure.reading text) (fun _ => rfl)
    (keptAbove_tokenize limit text)
  exact htokens.bind fun tokens =>
    KeptAbove.mapError (Failure.parsing text) (fun _ => rfl) (keptAbove_parse h tokens)

variable {settings : Settings}

/-- A power is differentiated without a look at the limit. -/
theorem keptAbove_powerDerivative (base exponent : Expr) :
    KeptAbove id limit (powerDerivative (settings.withMaxDepth limit) base exponent)
      (powerDerivative (settings.withMaxDepth limit') base exponent) := by
  have hfails : FailsWith (powerOffence (settings.withMaxDepth limit) base exponent)
      (powerDerivative (settings.withMaxDepth limit) base exponent) :=
    failsWith_powerDerivative base exponent
  generalize hoffence : powerOffence (settings.withMaxDepth limit) base exponent = offence at hfails
  apply KeptAbove.same
  intro fault hfault
  cases hfails with
  | value hvalue =>
      rw [hvalue] at hfault
      cases hfault
  | fault hfault' =>
      rw [hfault'] at hfault
      cases hfault
      rcases of_powerOffence hoffence with ⟨literal, rfl⟩ | ⟨-, rfl⟩
      · nofun
      · nofun

/-- Beyond the lower limit there is nothing to compare. -/
theorem keptAbove_of_level (h : limit ≤ limit') {level : Nat} {e : Expr}
    (hwithin : level ≤ limit → level ≤ limit' →
      KeptAbove id limit (e.derivativeAtLevel (settings.withMaxDepth limit) level)
        (e.derivativeAtLevel (settings.withMaxDepth limit') level)) :
    KeptAbove id limit (e.derivativeAtLevel (settings.withMaxDepth limit) level)
      (e.derivativeAtLevel (settings.withMaxDepth limit') level) := by
  rcases Nat.lt_or_ge limit level with hlt | hlevel
  · have hbeyond : (settings.withMaxDepth limit).maxDepth < level := hlt
    rw [derivativeAtLevel_of_lt hbeyond]
    exact .tooDeep rfl rfl
  · exact hwithin hlevel (Nat.le_trans hlevel h)

theorem keptAbove_derivativeAtLevel (h : limit ≤ limit') (level : Nat) (e : Expr) :
    KeptAbove id limit (e.derivativeAtLevel (settings.withMaxDepth limit) level)
      (e.derivativeAtLevel (settings.withMaxDepth limit') level) := by
  induction e generalizing level with
  | literal value =>
      refine keptAbove_of_level h fun hlow hhigh => ?_
      rw [derivativeAtLevel_literal hlow, derivativeAtLevel_literal hhigh]
      exact .of_outcome_ok rfl
  | identifier name =>
      refine keptAbove_of_level h fun hlow hhigh => ?_
      rw [derivativeAtLevel_identifier hlow, derivativeAtLevel_identifier hhigh]
      exact .of_outcome_ok rfl
  | binary op f g ihf ihg =>
      refine keptAbove_of_level h fun hlow hhigh => ?_
      by_cases hop : op = .power
      · subst hop
        rw [derivativeAtLevel_power hlow, derivativeAtLevel_power hhigh]
        exact keptAbove_powerDerivative f g
      · rcases exists_rule hop f g with ⟨rule, hrule⟩
        rw [hrule hlow, hrule hhigh]
        exact (ihf (level + 1)).bind fun _ => (ihg (level + 1)).bind_pure
  | call f g ih =>
      refine keptAbove_of_level h fun hlow hhigh => ?_
      rw [derivativeAtLevel_call hlow, derivativeAtLevel_call hhigh]
      have hnote : KeptAbove id limit (Logged.note (.chainRule (.call f g)))
          (Logged.note (.chainRule (.call f g))) := .of_outcome_ok rfl
      exact hnote.bind fun _ => (ih (level + 1)).bind_pure

theorem keptAbove_derivative (h : limit ≤ limit') (settings : Settings) (e : Expr) :
    KeptAbove id limit (e.derivative (settings.withMaxDepth limit))
      (e.derivative (settings.withMaxDepth limit')) :=
  keptAbove_derivativeAtLevel h 0 e

end Expr

/-- The check of the settings does not depend on the limit. -/
theorem Settings.keptAbove_validate (settings : Settings) (limit limit' : Nat) :
    KeptAbove id limit (Logged.lift (settings.withMaxDepth limit).validate)
      (Logged.lift (settings.withMaxDepth limit').validate) := by
  apply KeptAbove.same
  intro fault hfault
  unfold validate at hfault
  split at hfault
  · cases hfault
  · cases hfault
    nofun

theorem keptAbove_differentiate (h : limit ≤ limit') (settings : Settings) (text : String) :
    KeptAbove Failure.fault limit (differentiate (settings.withMaxDepth limit) text)
      (differentiate (settings.withMaxDepth limit') text) := by
  have hnote : ∀ record, KeptAbove Failure.fault limit (Logged.note record)
      (Logged.note record) := fun _ => .of_outcome_ok rfl
  have hvalidate := KeptAbove.mapError Failure.plain (fun _ => rfl)
    (settings.keptAbove_validate limit limit')
  have hderivative := fun e =>
    KeptAbove.mapError Failure.plain (fun _ => rfl) (Expr.keptAbove_derivative h settings e)
  apply hvalidate.bind
  intro _
  apply (Expr.keptAbove_read h text).bind
  intro e
  apply (hnote _).bind
  intro _
  apply (hderivative e).bind
  intro e'
  exact (hnote _).bind_pure

/-- Raising the limit only ever lifts a refusal for that limit. Putting tokens in postfix order,
    building a tree, reading tokens or a text, and differentiating a tree or a text each fail for
    the limit that was given, naming it, or do just the same under every higher limit. -/
theorem keptAbove_of_limit_le (h : limit ≤ limit') :
    (∀ tokens, KeptAbove id limit (Postfix.reorder limit tokens) (Postfix.reorder limit' tokens)) ∧
      (∀ text, KeptAbove id limit (Postfix.read limit text) (Postfix.read limit' text)) ∧
      (∀ tokens, KeptAbove id limit (Logged.lift (Expr.ofPostfix limit tokens))
        (Logged.lift (Expr.ofPostfix limit' tokens))) ∧
      (∀ tokens, KeptAbove id limit (Expr.parse limit tokens) (Expr.parse limit' tokens)) ∧
      (∀ text, KeptAbove Failure.fault limit (Expr.read limit text) (Expr.read limit' text)) ∧
      (∀ (settings : Settings) (e : Expr), KeptAbove id limit
        (e.derivative (settings.withMaxDepth limit))
        (e.derivative (settings.withMaxDepth limit'))) ∧
      ∀ (settings : Settings) (text : String), KeptAbove Failure.fault limit
        (differentiate (settings.withMaxDepth limit) text)
        (differentiate (settings.withMaxDepth limit') text) :=
  ⟨Postfix.keptAbove_reorder h, Expr.keptAbove_readPostfix h, Expr.keptAbove_ofPostfix h,
    Expr.keptAbove_parse h, Expr.keptAbove_read h, Expr.keptAbove_derivative h,
    keptAbove_differentiate h⟩

theorem differentiate_logarithm_of_limit_le :
    2 ≤ 3 ∧ 3 ≤ 512 ∧
      (differentiate (Settings.withMaxDepth {} 2) "x + ln(x)").outcome =
        .error (.parsing "x + ln(x)" (.nestingTooDeep 2)) ∧
      (differentiate (Settings.withMaxDepth {} 3) "x + ln(x)").outcome = .ok "1 + 1 / x * 1" ∧
      differentiate (Settings.withMaxDepth {} 512) "x + ln(x)" =
        differentiate (Settings.withMaxDepth {} 3) "x + ln(x)" := by
  have hline : (differentiate (Settings.withMaxDepth {} 3) "x + ln(x)").outcome =
      .ok "1 + 1 / x * 1" := rfl
  have hraised : 3 ≤ 512 := by decide
  rcases keptAbove_of_limit_le hraised with ⟨-, -, -, -, -, -, hdifferentiate⟩
  have hkept := hdifferentiate {} "x + ln(x)"
  exact ⟨by decide, hraised, rfl, hline, hkept.eq_of_outcome_ok hline⟩

end SymbolicCalculus
