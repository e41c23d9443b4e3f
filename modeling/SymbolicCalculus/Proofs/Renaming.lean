/-
Module: SymbolicCalculus.Proofs.Renaming
Layer: Proofs
Purpose: Differentiation does not depend on the choice of names. Names are compared in four places:
  at an identifier, in the shape of a power, in the search for the variable below a power, and where
  two equal summands are folded. Names that are replaced one to one compare as they did before, so
  the run on a renamed expression is the renamed run, with its records, its derivative or its fault.
Trusted boundary: human-reviewed spec
Main exports: Expr.rename, Settings.rename, Logged.rename, Expr.rename_injective,
  PowerShape.of_rename, Expr.derivativeAtLevel_rename, derivative_of_renamed
-/
import SymbolicCalculus.Proofs.StageFaults
import Mathlib.Logic.Equiv.Basic

namespace SymbolicCalculus

variable {relabel : String → String}

/-! ### Other names -/

/-- An expression in which every identifier has another name. -/
def Expr.rename (relabel : String → String) : Expr → Expr
  | .literal value => .literal value
  | .identifier name => .identifier (relabel name)
  | .binary op left right => .binary op (left.rename relabel) (right.rename relabel)
  | .call f argument => .call f (argument.rename relabel)

/-- Settings whose variable has another name. -/
def Settings.rename (relabel : String → String) (settings : Settings) : Settings :=
  { settings with withRespectTo := relabel settings.withRespectTo }

/-- A token under its other name. -/
def Token.rename (relabel : String → String) : Token → Token
  | .identifier name => .identifier (relabel name)
  | token => token

/-- A fault about the same thing under its other names. -/
def Fault.rename (relabel : String → String) : Fault → Fault
  | .missingOperand operator => .missingOperand (operator.rename relabel)
  | .danglingOperand operand => .danglingOperand (operand.rename relabel)
  | .invalidVariable name => .invalidVariable (relabel name)
  | .unsupportedPower power => .unsupportedPower (power.rename relabel)
  | fault => fault

/-- A record of the same thing under its other names. -/
def Record.rename (relabel : String → String) : Record → Record
  | .reordered tokens => .reordered (tokens.map (Token.rename relabel))
  | .expression tree => .expression (tree.rename relabel)
  | .derivative tree => .derivative (tree.rename relabel)
  | .chainRule call => .chainRule (call.rename relabel)
  | .powerRule power => .powerRule (power.rename relabel)
  | .exponentialRule power => .exponentialRule (power.rename relabel)
  | .takenAsZero power => .takenAsZero (power.rename relabel)

namespace Logged

/-- A run under other names: its records, and its expression or its fault. -/
def rename (relabel : String → String) (x : Logged Fault Expr) : Logged Fault Expr where
  records := x.records.map (Record.rename relabel)
  outcome := (x.outcome.map (Expr.rename relabel)).mapError (Fault.rename relabel)

/-- Runs that are put together are renamed part by part. -/
theorem rename_bind {x : Logged Fault Expr} {f g : Expr → Logged Fault Expr}
    (h : ∀ e, (f e).rename relabel = g (e.rename relabel)) :
    (x >>= f).rename relabel = x.rename relabel >>= g := by
  rcases x with ⟨records, fault | e⟩
  · rfl
  · have hrecords : (records ++ (f e).records).map (Record.rename relabel) =
        records.map (Record.rename relabel) ++ (g (e.rename relabel)).records := by
      rw [List.map_append, ← h]
      rfl
    have houtcome : ((f e).rename relabel).outcome = (g (e.rename relabel)).outcome := by rw [h]
    exact Logged.ext hrecords houtcome

/-- A record is renamed by itself. -/
theorem rename_note_bind (record : Record) (f : Unit → Logged Fault Expr) :
    (note record >>= f).rename relabel =
      note (record.rename relabel) >>= fun _ => (f ()).rename relabel := rfl

/-- Two operands and the rule that joins them are renamed one by one. -/
theorem rename_operands {x y x' y' : Logged Fault Expr} {rule rule' : Expr → Expr → Expr}
    (hx : x' = x.rename relabel) (hy : y' = y.rename relabel)
    (hrule : ∀ f g, (rule f g).rename relabel = rule' (f.rename relabel) (g.rename relabel)) :
    (do let f ← x'; let g ← y'; return rule' f g : Logged Fault Expr) =
      (do let f ← x; let g ← y; return rule f g : Logged Fault Expr).rename relabel := by
  rw [hx, hy]
  refine (rename_bind fun f => rename_bind fun g => ?_).symm
  rw [← hrule]
  rfl

end Logged

/-! ### Names that compare as before -/

namespace Expr

@[simp] theorem rename_eq_literal_iff {e : Expr} {value : Int64} :
    e.rename relabel = .literal value ↔ e = .literal value := by
  cases e <;> simp [rename]

/-- Leaves stay leaves. -/
@[simp] theorem isAtom_rename (e : Expr) : (e.rename relabel).isAtom = e.isAtom := by
  cases e <;> rfl

/-- Different expressions stay different under names that stay different. -/
theorem rename_injective (hrelabel : Function.Injective relabel) :
    Function.Injective (rename relabel) := by
  intro e e' h
  induction e generalizing e' with
  | literal value => exact (rename_eq_literal_iff.mp h.symm).symm
  | identifier name =>
      cases e' with
      | identifier other => rw [hrelabel (Expr.identifier.inj h)]
      | literal _ | binary _ _ _ | call _ _ => cases h
  | binary op left right ihl ihr =>
      cases e' with
      | binary op' left' right' =>
          obtain ⟨rfl, hleft, hright⟩ := Expr.binary.inj h
          rw [ihl hleft, ihr hright]
      | literal _ | identifier _ | call _ _ => cases h
  | call f argument ih =>
      cases e' with
      | call f' argument' =>
          obtain ⟨rfl, hargument⟩ := Expr.call.inj h
          rw [ih hargument]
      | literal _ | identifier _ | binary _ _ _ => cases h

theorem rename_eq_identifier_iff (hrelabel : Function.Injective relabel) {e : Expr}
    {name : String} : e.rename relabel = .identifier (relabel name) ↔ e = .identifier name :=
  (rename_injective hrelabel).eq_iff (b := .identifier name)

/-- A renamed expression mentions the other name of what it mentioned. -/
theorem mentions_rename (hrelabel : Function.Injective relabel) (e : Expr) (name : String) :
    (e.rename relabel).mentions (relabel name) = e.mentions name := by
  induction e with
  | literal value => rfl
  | identifier other =>
      rw [Bool.eq_iff_iff]
      simp only [rename, mentions, beq_iff_eq, hrelabel.eq_iff]
  | binary op left right ihl ihr => rw [rename, mentions, ihl, ihr, mentions]
  | call f argument ih => exact ih

end Expr

/-- A power keeps its shape. -/
theorem PowerShape.of_rename (hrelabel : Function.Injective relabel) (name : String)
    (base exponent : Expr) :
    of (relabel name) (base.rename relabel) (exponent.rename relabel) = of name base exponent := by
  have hliteral : ∀ n, of (relabel name) (base.rename relabel) (exponent.rename relabel) =
      .variableToLiteral n ↔ of name base exponent = .variableToLiteral n := by
    intro n
    rw [of_eq_variableToLiteral_iff, of_eq_variableToLiteral_iff,
      Expr.rename_eq_identifier_iff hrelabel, Expr.rename_eq_literal_iff]
  have hvariable : of (relabel name) (base.rename relabel) (exponent.rename relabel) =
      .constantToVariable ↔ of name base exponent = .constantToVariable := by
    rw [of_eq_constantToVariable_iff, of_eq_constantToVariable_iff, Expr.isAtom_rename, Ne,
      Expr.rename_eq_identifier_iff hrelabel, Expr.rename_eq_identifier_iff hrelabel]
  have hconstant : of (relabel name) (base.rename relabel) (exponent.rename relabel) =
      .constant ↔ of name base exponent = .constant := by
    rw [of_eq_constant_iff, of_eq_constant_iff,
      ← Expr.mentions_rename hrelabel (.power base exponent) name, Expr.rename]
  cases hshape : of name base exponent with
  | variableToLiteral n => exact (hliteral n).mpr hshape
  | constantToVariable => exact hvariable.mpr hshape
  | constant => exact hconstant.mpr hshape
  | unsupported =>
      -- no other shape is left, since each of them would be the shape of the power as it was
      cases hrenamed : of (relabel name) (base.rename relabel) (exponent.rename relabel) with
      | variableToLiteral n => rw [(hliteral n).mp hrenamed] at hshape; cases hshape
      | constantToVariable => rw [hvariable.mp hrenamed] at hshape; cases hshape
      | constant => rw [hconstant.mp hrenamed] at hshape; cases hshape
      | unsupported => rfl

namespace Expr

/-! ### The rules under other names -/

/-- An entry of the table names nothing but its argument. -/
theorem derivativeAt_rename (f : ElementaryFunction) (g : Expr) :
    (f.derivativeAt g).rename relabel = f.derivativeAt (g.rename relabel) := by
  cases f <;> rfl

theorem sumRule_rename (hrelabel : Function.Injective relabel) (f' g' : Expr) :
    (sumRule f' g').rename relabel = sumRule (f'.rename relabel) (g'.rename relabel) := by
  simp only [sumRule, rename_eq_literal_iff, (rename_injective hrelabel).eq_iff]
  split_ifs <;> rfl

theorem differenceRule_rename (f' g' : Expr) :
    (differenceRule f' g').rename relabel =
      differenceRule (f'.rename relabel) (g'.rename relabel) := by
  simp only [differenceRule, rename_eq_literal_iff]
  split_ifs <;> rfl

theorem productRule_rename (f g f' g' : Expr) :
    (productRule f g f' g').rename relabel =
      productRule (f.rename relabel) (g.rename relabel) (f'.rename relabel)
        (g'.rename relabel) := by
  simp only [productRule, rename_eq_literal_iff]
  split_ifs <;> rfl

theorem quotientRule_rename (f g f' g' : Expr) :
    (quotientRule f g f' g').rename relabel =
      quotientRule (f.rename relabel) (g.rename relabel) (f'.rename relabel)
        (g'.rename relabel) := rfl

theorem powerDerivative_rename (hrelabel : Function.Injective relabel) (settings : Settings)
    (base exponent : Expr) :
    powerDerivative (settings.rename relabel) (base.rename relabel) (exponent.rename relabel) =
      (powerDerivative settings base exponent).rename relabel := by
  have hshape : PowerShape.of (settings.rename relabel).withRespectTo (base.rename relabel)
      (exponent.rename relabel) = PowerShape.of settings.withRespectTo base exponent :=
    PowerShape.of_rename hrelabel _ base exponent
  rw [powerDerivative, hshape, powerDerivative]
  cases PowerShape.of settings.withRespectTo base exponent with
  | variableToLiteral n =>
      dsimp only
      rw [Logged.rename_note_bind]
      split <;> rfl
  | constantToVariable => rfl
  | constant => rfl
  | unsupported =>
      have hpolicy : (settings.rename relabel).unsupportedPowers = settings.unsupportedPowers := rfl
      rw [hpolicy]
      cases settings.unsupportedPowers <;> rfl

/-! ### The run -/

/-- Beyond the limit both runs fail alike. -/
theorem rename_of_level {settings : Settings} {level : Nat} {e : Expr}
    (h : level ≤ settings.maxDepth → level ≤ (settings.rename relabel).maxDepth →
      (e.rename relabel).derivativeAtLevel (settings.rename relabel) level =
        (e.derivativeAtLevel settings level).rename relabel) :
    (e.rename relabel).derivativeAtLevel (settings.rename relabel) level =
      (e.derivativeAtLevel settings level).rename relabel := by
  rcases Nat.lt_or_ge settings.maxDepth level with hlt | hlevel
  · have hlt' : (settings.rename relabel).maxDepth < level := hlt
    rw [derivativeAtLevel_of_lt hlt, derivativeAtLevel_of_lt hlt']
    rfl
  · exact h hlevel hlevel

/-- At every level, the run on a renamed expression is the renamed run. -/
theorem derivativeAtLevel_rename (hrelabel : Function.Injective relabel) (settings : Settings)
    (level : Nat) (e : Expr) :
    (e.rename relabel).derivativeAtLevel (settings.rename relabel) level =
      (e.derivativeAtLevel settings level).rename relabel := by
  induction e generalizing level with
  | literal value =>
      refine rename_of_level fun hlevel hlevel' => ?_
      rw [rename, derivativeAtLevel_literal hlevel', derivativeAtLevel_literal hlevel]
      rfl
  | identifier name =>
      refine rename_of_level fun hlevel hlevel' => ?_
      rw [rename, derivativeAtLevel_identifier hlevel', derivativeAtLevel_identifier hlevel]
      have hname : relabel name = (settings.rename relabel).withRespectTo ↔
          name = settings.withRespectTo := hrelabel.eq_iff
      simp only [hname]
      split <;> rfl
  | binary op f g ihf ihg =>
      refine rename_of_level fun hlevel hlevel' => ?_
      cases op with
      | add =>
          rw [rename, derivativeAtLevel_sum hlevel', derivativeAtLevel_sum hlevel]
          exact Logged.rename_operands (ihf _) (ihg _) (sumRule_rename hrelabel)
      | subtract =>
          rw [rename, derivativeAtLevel_difference hlevel', derivativeAtLevel_difference hlevel]
          exact Logged.rename_operands (ihf _) (ihg _) differenceRule_rename
      | multiply =>
          rw [rename, derivativeAtLevel_product hlevel', derivativeAtLevel_product hlevel]
          exact Logged.rename_operands (ihf _) (ihg _) (productRule_rename f g)
      | divide =>
          rw [rename, derivativeAtLevel_quotient hlevel', derivativeAtLevel_quotient hlevel]
          exact Logged.rename_operands (ihf _) (ihg _) (quotientRule_rename f g)
      | power =>
          rw [rename, derivativeAtLevel_power hlevel', derivativeAtLevel_power hlevel]
          exact powerDerivative_rename hrelabel settings f g
  | call f g ih =>
      refine rename_of_level fun hlevel hlevel' => ?_
      rw [rename, derivativeAtLevel_call hlevel', derivativeAtLevel_call hlevel,
        Logged.rename_note_bind, ih]
      refine congrArg (Logged.note _ >>= ·) (funext fun _ => ?_)
      refine (Logged.rename_bind fun g' => ?_).symm
      rw [← derivativeAt_rename]
      rfl

end Expr

/-- Differentiation does not depend on the choice of names. If different names are replaced by
    different ones, in an expression and for the variable, then the derivative is the renamed one,
    and where there is none the fault is the same, but that a refused power is shown under its new
    names. The records are those of the run before, under the new names. -/
theorem derivative_of_renamed (hrelabel : Function.Injective relabel) (settings : Settings)
    (e : Expr) :
    ((e.rename relabel).derivative (settings.rename relabel)).outcome =
        (match (e.derivative settings).outcome with
        | .ok e' => .ok (e'.rename relabel)
        | .error (.unsupportedPower power) => .error (.unsupportedPower (power.rename relabel))
        | .error fault => .error fault) ∧
      (∀ e', ((e.rename relabel).derivative (settings.rename relabel)).outcome =
          .ok (e'.rename relabel) ↔ (e.derivative settings).outcome = .ok e') ∧
      ((e.rename relabel).derivative (settings.rename relabel)).records =
        (e.derivative settings).records.map (Record.rename relabel) := by
  have hrun : (e.rename relabel).derivative (settings.rename relabel) =
      (e.derivative settings).rename relabel :=
    e.derivativeAtLevel_rename hrelabel settings 0
  rw [hrun, Logged.rename]
  refine ⟨?_, ?_, rfl⟩
  · cases houtcome : (e.derivative settings).outcome with
    | ok e' => rfl
    | error fault =>
        cases Expr.ofDifferentiating_of_derivative houtcome with
        | nestingTooDeep | literalOutOfRange _ | unsupportedPower _ _ => rfl
  · intro e'
    cases (e.derivative settings).outcome with
    | ok result =>
        have hsame : result.rename relabel = e'.rename relabel ↔ result = e' :=
          (Expr.rename_injective hrelabel).eq_iff
        simpa [Except.map, Except.mapError] using hsame
    | error fault => simp [Except.map, Except.mapError]

/-- `x * a + x * a`, where the two summands of the derivative are equal. -/
def repeatedProduct : Expr :=
  .sum (.product (.identifier "x") (.identifier "a")) (.product (.identifier "x") (.identifier "a"))

/-- `ln(x ^ (x + a))`, with a power that has no rule. -/
def growingPower : Expr :=
  .call .ln (.power (.identifier "x") (.sum (.identifier "x") (.identifier "a")))

theorem derivative_of_renamed_exchanged :
    Function.Injective (Equiv.swap "x" "a") ∧
      (repeatedProduct.derivative {}).outcome =
        .ok (.product (.literal 2) (.product (.literal 1) (.identifier "a"))) ∧
      ((repeatedProduct.rename (Equiv.swap "x" "a")).derivative { withRespectTo := "a" }).outcome =
        .ok (.product (.literal 2) (.product (.literal 1) (.identifier "x"))) ∧
      ((growingPower.rename (Equiv.swap "x" "a")).derivative
          { withRespectTo := "a", unsupportedPowers := .reject }).outcome =
        .error (.unsupportedPower
          (.power (.identifier "a") (.sum (.identifier "a") (.identifier "x")))) := by
  have hswap : Function.Injective (Equiv.swap "x" "a") := (Equiv.swap "x" "a").injective
  have hproduct : (repeatedProduct.derivative {}).outcome =
      .ok (.product (.literal 2) (.product (.literal 1) (.identifier "a"))) := rfl
  have hrenamed := ((derivative_of_renamed hswap {} repeatedProduct).2.1 _).mpr hproduct
  have hrefused := (derivative_of_renamed hswap { unsupportedPowers := .reject } growingPower).1
  exact ⟨hswap, hproduct, hrenamed, hrefused⟩

end SymbolicCalculus
