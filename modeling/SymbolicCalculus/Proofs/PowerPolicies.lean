/-
Module: SymbolicCalculus.Proofs.PowerPolicies
Layer: Proofs
Purpose: The two policies about powers without a rule, compared run by run. Where such powers are
  refused, a differentiation does what it does where they count as zero, up to the first of them;
  there it fails, with the records made so far. The comparison is a relation between computations
  that holds of a power by itself and is kept when computations are put together, so it holds of
  every expression, whatever goes wrong behind the first such power.
Trusted boundary: none
Main exports: Logged.StopsAtWarning, Logged.StopsAtWarning.bind, Expr.stopsAtWarning_derivative,
  derivative_reject_of_zero
-/
import SymbolicCalculus.Proofs.DerivativeSteps

namespace SymbolicCalculus

/-- Only a power that is taken as zero makes a warning. -/
theorem Record.level_eq_warn_iff {record : Record} :
    record.level = .warn ↔ ∃ power, record = .takenAsZero power := by
  cases record with
  | takenAsZero power => simp [level]
  | reordered _ | expression _ | derivative _ | chainRule _ | powerRule _ | exponentialRule _ =>
      simp [level]

namespace Logged

variable {α β : Type}

/-- `StopsAtWarning x y` says that `y` goes as `x` does and fails where `x` makes its first warning:
    with the power that the warning is about, and with the records before it. -/
inductive StopsAtWarning : Logged Fault α → Logged Fault α → Prop where
  | unwarned {x : Logged Fault α} : (∀ record ∈ x.records, record.level ≠ .warn) →
      StopsAtWarning x x
  | stopped {before after : List Record} {power : Expr} {outcome : Except Fault α} :
      (∀ record ∈ before, record.level ≠ .warn) →
      StopsAtWarning ⟨before ++ .takenAsZero power :: after, outcome⟩
        ⟨before, .error (.unsupportedPower power)⟩

namespace StopsAtWarning

/-- What makes no records makes no warning. -/
theorem of_records_eq_nil {x : Logged Fault α} (h : x.records = []) : StopsAtWarning x x :=
  .unwarned (by simp [h])

/-- Records without a warning do not stop what comes behind them. -/
theorem append_records {records : List Record} (h : ∀ record ∈ records, record.level ≠ .warn)
    {x y : Logged Fault α} (hxy : StopsAtWarning x y) :
    StopsAtWarning ⟨records ++ x.records, x.outcome⟩ ⟨records ++ y.records, y.outcome⟩ := by
  cases hxy with
  | unwarned hx =>
      exact .unwarned fun record hmem => (List.mem_append.mp hmem).elim (h record) (hx record)
  | stopped hbefore =>
      rw [← List.append_assoc]
      exact .stopped fun record hmem =>
        (List.mem_append.mp hmem).elim (h record) (hbefore record)

/-- Computations that are put together stop where the first does, or else where the second does. -/
theorem bind {x y : Logged Fault α} {f g : α → Logged Fault β} (h : StopsAtWarning x y)
    (hrest : ∀ a, StopsAtWarning (f a) (g a)) : StopsAtWarning (x >>= f) (y >>= g) := by
  cases h with
  | unwarned hx =>
      rcases x with ⟨records, fault | a⟩
      · exact .unwarned hx
      · exact append_records hx (hrest a)
  | @stopped before after power outcome hbefore =>
      cases outcome with
      | error fault => exact .stopped hbefore
      | ok a =>
          have h : StopsAtWarning
              ⟨before ++ .takenAsZero power :: (after ++ (f a).records), (f a).outcome⟩
              ⟨before, .error (.unsupportedPower power)⟩ := .stopped hbefore
          rwa [← List.cons_append, ← List.append_assoc] at h

/-- A record that is no warning does not stop what comes behind it. -/
theorem note_bind {record : Record} (h : record.level ≠ .warn) {f g : Unit → Logged Fault α}
    (hrest : StopsAtWarning (f ()) (g ())) :
    StopsAtWarning (note record >>= f) (note record >>= g) :=
  append_records (by simpa using h) hrest

end StopsAtWarning

end Logged

/-- The same settings under another policy. -/
def Settings.withPolicy (settings : Settings) (policy : PowerPolicy) : Settings :=
  { settings with unsupportedPowers := policy }

namespace Expr

open Logged (StopsAtWarning)

variable {settings : Settings}

/-- A power that has no rule is all that the policies tell apart. -/
theorem stopsAtWarning_powerDerivative (base exponent : Expr) :
    StopsAtWarning (powerDerivative (settings.withPolicy .zero) base exponent)
      (powerDerivative (settings.withPolicy .reject) base exponent) := by
  unfold powerDerivative
  dsimp only [Settings.withPolicy]
  split
  · apply StopsAtWarning.note_bind (by simp [Record.level_eq_warn_iff])
    split
    · exact .of_records_eq_nil rfl
    · exact .of_records_eq_nil rfl
  · exact .note_bind (by simp [Record.level_eq_warn_iff]) (.of_records_eq_nil rfl)
  · exact .of_records_eq_nil rfl
  · have hnothing : ∀ record ∈ ([] : List Record), record.level ≠ .warn := by simp
    exact .stopped hnothing

/-- Beyond the limit there is nothing to compare. -/
theorem stopsAtWarning_of_level {level : Nat} {e : Expr}
    (h : (∀ policy, level ≤ (settings.withPolicy policy).maxDepth) →
      StopsAtWarning (e.derivativeAtLevel (settings.withPolicy .zero) level)
        (e.derivativeAtLevel (settings.withPolicy .reject) level)) :
    StopsAtWarning (e.derivativeAtLevel (settings.withPolicy .zero) level)
      (e.derivativeAtLevel (settings.withPolicy .reject) level) := by
  rcases Nat.lt_or_ge settings.maxDepth level with hlt | hlevel
  · have hbeyond : ∀ policy, (settings.withPolicy policy).maxDepth < level := fun _ => hlt
    rw [derivativeAtLevel_of_lt (hbeyond .zero), derivativeAtLevel_of_lt (hbeyond .reject)]
    exact .of_records_eq_nil rfl
  · exact h fun _ => hlevel

/-- At every level, differentiation stops where it would warn under the other policy. -/
theorem stopsAtWarning_derivativeAtLevel (level : Nat) (e : Expr) :
    StopsAtWarning (e.derivativeAtLevel (settings.withPolicy .zero) level)
      (e.derivativeAtLevel (settings.withPolicy .reject) level) := by
  induction e generalizing level with
  | literal value =>
      refine stopsAtWarning_of_level fun hwithin => ?_
      rw [derivativeAtLevel_literal (hwithin .zero), derivativeAtLevel_literal (hwithin .reject)]
      exact .of_records_eq_nil rfl
  | identifier name =>
      refine stopsAtWarning_of_level fun hwithin => ?_
      rw [derivativeAtLevel_identifier (hwithin .zero),
        derivativeAtLevel_identifier (hwithin .reject)]
      exact .of_records_eq_nil rfl
  | binary op f g ihf ihg =>
      refine stopsAtWarning_of_level fun hwithin => ?_
      by_cases hop : op = .power
      · subst hop
        rw [derivativeAtLevel_power (hwithin .zero), derivativeAtLevel_power (hwithin .reject)]
        exact stopsAtWarning_powerDerivative f g
      · rcases exists_rule hop f g with ⟨rule, hrule⟩
        rw [hrule (hwithin .zero), hrule (hwithin .reject)]
        exact (ihf (level + 1)).bind fun _ => (ihg (level + 1)).bind fun _ =>
          .of_records_eq_nil rfl
  | call f g ih =>
      refine stopsAtWarning_of_level fun hwithin => ?_
      rw [derivativeAtLevel_call (hwithin .zero), derivativeAtLevel_call (hwithin .reject)]
      apply StopsAtWarning.note_bind (by simp [Record.level_eq_warn_iff])
      exact (ih (level + 1)).bind fun _ => .of_records_eq_nil rfl

end Expr

/-- What refusing powers without a rule comes to, told from the run in which they count as zero. If
    that run makes no warning, it is the same run. Otherwise the refusing run fails for the power
    that the first warning names, whatever the other run comes to, and has made just the records
    before that warning. -/
theorem derivative_reject_of_zero (settings : Settings) (e : Expr) :
    ((∀ record ∈ (e.derivative (settings.withPolicy .zero)).records, record.level ≠ .warn) →
      e.derivative (settings.withPolicy .reject) = e.derivative (settings.withPolicy .zero)) ∧
    ∀ first, (e.derivative (settings.withPolicy .zero)).records.find? (·.level == .warn) =
        some first →
      ∃ power, first = .takenAsZero power ∧
        (e.derivative (settings.withPolicy .reject)).outcome = .error (.unsupportedPower power) ∧
        (e.derivative (settings.withPolicy .reject)).records =
          (e.derivative (settings.withPolicy .zero)).records.takeWhile (·.level != .warn) := by
  have hstops : Logged.StopsAtWarning (e.derivative (settings.withPolicy .zero))
      (e.derivative (settings.withPolicy .reject)) := e.stopsAtWarning_derivativeAtLevel 0
  generalize e.derivative (settings.withPolicy .zero) = lenient at hstops ⊢
  generalize e.derivative (settings.withPolicy .reject) = strict at hstops ⊢
  cases hstops with
  | unwarned hunwarned =>
      refine ⟨fun _ => rfl, fun first hfirst => ?_⟩
      have hwarn : first.level = .warn := by simpa using List.find?_some hfirst
      exact absurd hwarn (hunwarned first (List.mem_of_find?_eq_some hfirst))
  | @stopped before after power outcome hbefore =>
      have hwarn : (Record.takenAsZero power).level = .warn :=
        Record.level_eq_warn_iff.mpr ⟨power, rfl⟩
      refine ⟨fun hunwarned => absurd hwarn (hunwarned _ (by simp)), fun first hfirst => ?_⟩
      have hnone : before.find? (·.level == .warn) = none := by simpa using hbefore
      rw [List.find?_append, hnone, List.find?_cons_of_pos (by simp [hwarn])] at hfirst
      cases hfirst
      refine ⟨power, rfl, rfl, ?_⟩
      rw [List.takeWhile_append_of_pos (by simpa using hbefore),
        List.takeWhile_cons_of_neg (by simp [hwarn]), List.append_nil]

/-- `sin(x) ^ 2`, which has no rule. -/
def squaredSine : Expr :=
  .power (.call .sin (.identifier "x")) (.literal 2)

/-- `x` to the least integer, which has a rule that fails. -/
def leastPower : Expr :=
  .power (.identifier "x") (.literal Int64.minValue)

/-- `ln(x) + (sin(x) ^ 2 + x ^ -9223372036854775808)`, which fails behind its first warning. -/
def doubtfulPowers : Expr :=
  .sum (.call .ln (.identifier "x")) (.sum squaredSine leastPower)

theorem derivative_reject_doubtfulPowers :
    doubtfulPowers.derivative (Settings.withPolicy {} .zero) =
        ⟨[.chainRule (.call .ln (.identifier "x")), .takenAsZero squaredSine,
          .powerRule leastPower], .error (.literalOutOfRange "-9223372036854775808")⟩ ∧
      doubtfulPowers.derivative (Settings.withPolicy {} .reject) =
        ⟨[.chainRule (.call .ln (.identifier "x"))], .error (.unsupportedPower squaredSine)⟩ ∧
      leastPower.derivative (Settings.withPolicy {} .reject) =
        ⟨[.powerRule leastPower], .error (.literalOutOfRange "-9223372036854775808")⟩ := by
  have hlenient : doubtfulPowers.derivative (Settings.withPolicy {} .zero) =
      ⟨[.chainRule (.call .ln (.identifier "x")), .takenAsZero squaredSine,
        .powerRule leastPower], .error (.literalOutOfRange "-9223372036854775808")⟩ := by rfl
  have hunwarned : leastPower.derivative (Settings.withPolicy {} .zero) =
      ⟨[.powerRule leastPower], .error (.literalOutOfRange "-9223372036854775808")⟩ := by rfl
  have hfirst : (doubtfulPowers.derivative (Settings.withPolicy {} .zero)).records.find?
      (·.level == .warn) = some (.takenAsZero squaredSine) := by
    rw [hlenient]
    rfl
  rcases (derivative_reject_of_zero {} doubtfulPowers).2 _ hfirst with
    ⟨power, hpower, houtcome, hrecords⟩
  cases hpower
  rw [hlenient] at hrecords
  refine ⟨hlenient, Logged.ext hrecords houtcome, ?_⟩
  rw [← hunwarned]
  apply (derivative_reject_of_zero {} leastPower).1
  rw [hunwarned]
  decide

end SymbolicCalculus
