/-
Module: SymbolicCalculus.Proofs.RegroupingValue
Layer: Proofs
Purpose: When writing an expression without the parentheses of `a + (b - c)` and `a * (b / c)`
  changes what it means. Values may be missing here, powers and functions are arbitrary partial
  maps, and what a quotient by zero is may be any rule at all. An operator that regroups agrees with
  every operator of its precedence as long as no quotient by zero is met. Where one is met, the rule
  for these quotients has to let a factor into the numerator. It does so exactly when all of them
  are missing or all are their numerator times one element, and then a graft has the value of a
  plain node, and so has a whole expression that is regrouped. A rule that gives every quotient by
  zero the same value, other than zero, does not. Which operands are missing never matters, since
  every operator needs both of them.
Trusted boundary: human-reviewed spec
Main exports: PartialInterpretation, ScalesNumerators, scalesNumerators_iff,
  PartialInterpretation.operation_bind_regroup, Expr.partialValue, Expr.partialValue_regroup,
  Expr.partialValue_of_withoutQuotientsByZero, Expr.partialValue_toPartial,
  scalesNumerators_of_partialValue_eq, value_of_parse_toInfix
-/
import Mathlib.Algebra.Field.Rat
import SymbolicCalculus.Proofs.GrammarAgreement
import SymbolicCalculus.Proofs.Regrouping
import SymbolicCalculus.Proofs.Value

namespace SymbolicCalculus

/-! ### Rules for quotients by zero -/

/-- A rule for quotients by zero under which a factor may go into the numerator. These quotients are
    all missing, or all are their numerator times one element. -/
def ScalesNumerators {K : Type*} [Mul K] (overZero : K → Option K) : Prop :=
  (∀ a, overZero a = none) ∨ ∃ k, ∀ a, overZero a = some (a * k)

section Rules

variable {K : Type*} [Monoid K] {overZero : K → Option K}

/-- A quotient by zero may be multiplied by multiplying its numerator. -/
theorem ScalesNumerators.map_mul (h : ScalesNumerators overZero) (a b : K) :
    (overZero b).map (a * ·) = overZero (a * b) := by
  obtain hmissing | ⟨k, hscaled⟩ := h
  · rw [hmissing, hmissing, Option.map_none]
  · rw [hscaled, hscaled, Option.map_some, mul_assoc]

/-- What one divided by zero is says what every quotient by zero is. -/
theorem scalesNumerators_iff :
    ScalesNumerators overZero ↔ ∀ a, overZero a = (overZero 1).map (a * ·) := by
  constructor
  · intro h a
    rw [h.map_mul, mul_one]
  · intro h
    cases hone : overZero 1 with
    | none => exact .inl fun a => by rw [h, hone, Option.map_none]
    | some k => exact .inr ⟨k, fun a => by rw [h, hone, Option.map_some]⟩

end Rules

/-! ### Values that may be missing -/

/-- What the parts of an expression stand for in a field, where anything but an integer may be
    without a value. -/
structure PartialInterpretation (K : Type*) where
  identifier : String → Option K
  /-- What an element divided by zero is. Nothing is asked of this rule. -/
  overZero : K → Option K
  power : K → K → Option K
  function : ElementaryFunction → K → Option K

namespace PartialInterpretation

variable {K : Type*} [Field K] [DecidableEq K]

/-- The map that an operator stands for. -/
def operation (I : PartialInterpretation K) : BinaryOp → K → K → Option K
  | .add => fun a b => some (a + b)
  | .subtract => fun a b => some (a - b)
  | .multiply => fun a b => some (a * b)
  | .divide => fun a b => if b = 0 then I.overZero a else some (a / b)
  | .power => I.power

theorem operation_divide (I : PartialInterpretation K) (a b : K) :
    I.operation .divide a b = if b = 0 then I.overZero a else some (a / b) := rfl

/-- The interpretation in which no quotient by zero has a value. -/
def withoutQuotientsByZero (I : PartialInterpretation K) : PartialInterpretation K :=
  { I with overZero := fun _ => none }

/-- An operator that regroups may be applied before any operator of its own precedence. -/
theorem operation_bind_regroup {I : PartialInterpretation K} (hscales : ScalesNumerators I.overZero)
    {op inner : BinaryOp} (hassoc : op.isAssociative = true)
    (hprecedence : inner.precedence = op.precedence) (a b c : K) :
    (I.operation inner b c >>= fun d => I.operation op a d) =
      I.operation op a b >>= fun d => I.operation inner d c := by
  cases op with
  | add =>
      cases inner with
      | add => exact congrArg some (add_assoc a b c).symm
      | subtract => exact congrArg some (add_sub_assoc a b c).symm
      | multiply | divide | power => exact absurd hprecedence (by decide)
  | multiply =>
      cases inner with
      | multiply => exact congrArg some (mul_assoc a b c).symm
      | divide =>
          show ((if c = 0 then I.overZero b else some (b / c)) >>= fun d => some (a * d)) =
            if c = 0 then I.overZero (a * b) else some (a * b / c)
          split
          · exact Option.map_eq_bind.symm.trans (hscales.map_mul a b)
          · exact congrArg some (mul_div_assoc a b c).symm
      | add | subtract | power => exact absurd hprecedence (by decide)
  | subtract | divide | power => exact absurd hassoc (by decide)

/-- Where an operation has a value without quotients by zero, it has that value under any rule. -/
theorem operation_of_withoutQuotientsByZero {I : PartialInterpretation K} {op : BinaryOp}
    {a b value : K} (h : I.withoutQuotientsByZero.operation op a b = some value) :
    I.operation op a b = some value := by
  cases op with
  | add | subtract | multiply | power => exact h
  | divide =>
      rw [operation_divide] at h ⊢
      split at h
      · cases h
      · rename_i hzero
        rw [if_neg hzero]
        exact h

end PartialInterpretation

/-- An interpretation in which nothing is missing, where quotients by zero are zero. -/
def Interpretation.toPartial {K : Type*} [Zero K] (I : Interpretation K) :
    PartialInterpretation K where
  identifier name := some (I.identifier name)
  overZero _ := some 0
  power a b := some (I.power a b)
  function f a := some (I.function f a)

theorem Interpretation.scalesNumerators_toPartial {K : Type*} [Field K] (I : Interpretation K) :
    ScalesNumerators I.toPartial.overZero :=
  .inr ⟨0, fun a => congrArg some (mul_zero a).symm⟩

namespace Expr

variable {K : Type*} [Field K] [DecidableEq K]

/-- The value of an expression, if every part of it has one. -/
def partialValue (I : PartialInterpretation K) : Expr → Option K
  | .literal n => some (n.toInt : K)
  | .identifier name => I.identifier name
  | .binary op left right => do
      let a ← left.partialValue I
      let b ← right.partialValue I
      I.operation op a b
  | .call f argument => do
      let a ← argument.partialValue I
      I.function f a

/-- Where nothing is missing, an expression has its plain value. -/
theorem partialValue_toPartial (I : Interpretation K) (e : Expr) :
    e.partialValue I.toPartial = some (e.value I) := by
  induction e with
  | literal n => rfl
  | identifier name => rfl
  | call f argument ih =>
      rw [partialValue, ih]
      rfl
  | binary op left right ihl ihr =>
      rw [partialValue, ihl, ihr]
      cases op with
      | add | subtract | multiply | power => rfl
      | divide =>
          show (if right.value I = 0 then some 0 else some (left.value I / right.value I)) =
            some (left.value I / right.value I)
          split
          · rename_i hzero
            rw [hzero, div_zero]
          · rfl

/-- A value that is there without quotients by zero does not rest on the rule for them. -/
theorem partialValue_of_withoutQuotientsByZero {I : PartialInterpretation K} {e : Expr} {value : K}
    (h : e.partialValue I.withoutQuotientsByZero = some value) :
    e.partialValue I = some value := by
  induction e generalizing value with
  | literal n => exact h
  | identifier name => exact h
  | binary op left right ihl ihr =>
      obtain ⟨a, hleft, h⟩ := Option.bind_eq_some_iff.mp h
      obtain ⟨b, hright, hvalue⟩ := Option.bind_eq_some_iff.mp h
      rw [partialValue, ihl hleft, ihr hright]
      exact PartialInterpretation.operation_of_withoutQuotientsByZero hvalue
  | call f argument ih =>
      obtain ⟨a, hargument, hvalue⟩ := Option.bind_eq_some_iff.mp h
      rw [partialValue, ih hargument]
      exact hvalue

section Regrouping

variable {I : PartialInterpretation K} (hscales : ScalesNumerators I.overZero)
include hscales

/-- A graft has the value of the node that it stands for. -/
theorem partialValue_graft {op : BinaryOp} (hassoc : op.isAssociative = true) (left right : Expr) :
    (graft op left right).partialValue I = (binary op left right).partialValue I := by
  induction right with
  | literal n => rfl
  | identifier name => rfl
  | call f argument _ => rfl
  | binary inner a b iha _ =>
      by_cases hprecedence : inner.precedence = op.precedence
      · rw [graft_binary hprecedence, partialValue, iha]
        simp only [partialValue]
        -- where an operand is missing both sides are, so the law is needed only where all are there
        cases left.partialValue I with
        | none => rfl
        | some x =>
            cases a.partialValue I with
            | none => rfl
            | some y =>
                cases b.partialValue I with
                | none => exact Option.bind_fun_none (I.operation op x y)
                | some z =>
                    have hlaw := I.operation_bind_regroup hscales hassoc hprecedence x y z
                    exact hlaw.symm
      · rw [graft, if_neg hprecedence]

theorem partialValue_join (op : BinaryOp) (left right : Expr) :
    (join op left right).partialValue I = (binary op left right).partialValue I := by
  cases hassoc : op.isAssociative with
  | true => rw [join_of_isAssociative hassoc, partialValue_graft hscales hassoc]
  | false => rw [join_of_not_isAssociative hassoc]

/-- Regrouping keeps the value of an expression, and keeps it missing. -/
theorem partialValue_regroup (e : Expr) : e.regroup.partialValue I = e.partialValue I := by
  induction e with
  | literal n => rfl
  | identifier name => rfl
  | binary op left right ihl ihr =>
      rw [regroup, partialValue_join hscales, partialValue, ihl, ihr, partialValue]
  | call f argument ih => rw [regroup, partialValue, ih, partialValue]

end Regrouping

/-- What an expression is read as has its value wherever no quotient by zero is met. -/
theorem partialValue_regroup_of_withoutQuotientsByZero {I : PartialInterpretation K} {e : Expr}
    {value : K} (h : e.partialValue I.withoutQuotientsByZero = some value) :
    e.regroup.partialValue I = some value := by
  have hmissing : ScalesNumerators I.withoutQuotientsByZero.overZero := .inl fun _ => rfl
  apply partialValue_of_withoutQuotientsByZero
  rw [partialValue_regroup hmissing, h]

end Expr

/-! ### The rules under which no value changes -/

/-- `a * (1 / 0)`, which loses its parentheses when it is written. -/
def scaledReciprocal : Expr :=
  .product (.identifier "a") (.quotient (.literal 1) (.literal 0))

/-- `a * 1 / 0` as it is read. -/
def scaledReciprocalRead : Expr :=
  .quotient (.product (.identifier "a") (.literal 1)) (.literal 0)

/-- An interpretation in which every identifier is one element, with a rule for quotients by zero,
    where powers are their base and functions leave their argument as it is. -/
def constantIdentifiers {K : Type*} (a : K) (overZero : K → Option K) :
    PartialInterpretation K where
  identifier _ := some a
  overZero := overZero
  power base _ := some base
  function _ argument := some argument

section Reciprocals

variable {K : Type*} [Field K] [DecidableEq K] (a : K) (overZero : K → Option K)

theorem partialValue_scaledReciprocal :
    scaledReciprocal.partialValue (constantIdentifiers a overZero) =
      (overZero 1).map (a * ·) := by
  have hone : ((1 : Int64).toInt : K) = 1 := Int.cast_one
  have hzero : ((0 : Int64).toInt : K) = 0 := Int.cast_zero
  show ((if ((0 : Int64).toInt : K) = 0 then overZero (1 : Int64).toInt
    else some ((1 : Int64).toInt / (0 : Int64).toInt)) >>= fun b => some (a * b)) = _
  rw [if_pos hzero, hone]
  exact Option.map_eq_bind.symm

theorem partialValue_scaledReciprocalRead :
    scaledReciprocalRead.partialValue (constantIdentifiers a overZero) = overZero a := by
  have hone : ((1 : Int64).toInt : K) = 1 := Int.cast_one
  have hzero : ((0 : Int64).toInt : K) = 0 := Int.cast_zero
  show (if ((0 : Int64).toInt : K) = 0 then overZero (a * (1 : Int64).toInt)
    else some (a * (1 : Int64).toInt / (0 : Int64).toInt)) = _
  rw [if_pos hzero, hone, mul_one]

/-- A rule has to scale numerators if `a * (1 / 0)` is to keep its value for every `a`. -/
theorem scalesNumerators_of_partialValue_eq
    (h : ∀ I : PartialInterpretation K, I.overZero = overZero →
      scaledReciprocalRead.partialValue I = scaledReciprocal.partialValue I) :
    ScalesNumerators overZero := by
  rw [scalesNumerators_iff]
  intro a
  have hsame := h (constantIdentifiers a overZero) rfl
  rwa [partialValue_scaledReciprocal, partialValue_scaledReciprocalRead] at hsame

end Reciprocals

theorem outcome_parse_scaledReciprocal :
    (Expr.parse 3 scaledReciprocal.toInfix).outcome = .ok scaledReciprocalRead := rfl

/-- Reading what an expression is written as gives an expression of the same value, or without one
    where the first has none, although the two may be different. This asks that quotients by zero
    are all missing or all are their numerator times one element, and there is no other rule for
    them under which it holds of every expression. Where no quotient by zero is met, it holds under
    any rule. In particular it holds where all values are there and quotients by zero are zero. -/
theorem value_of_parse_toInfix (K : Type*) [Field K] [DecidableEq K] :
    (∀ overZero : K → Option K, ScalesNumerators overZero ↔
      ∀ (limit : Nat) (e result : Expr), (Expr.parse limit e.toInfix).outcome = .ok result →
        ∀ I : PartialInterpretation K, I.overZero = overZero →
          result.partialValue I = e.partialValue I) ∧
    ∀ (limit : Nat) (e result : Expr), (Expr.parse limit e.toInfix).outcome = .ok result →
      (∀ (I : PartialInterpretation K) (value : K),
        e.partialValue I.withoutQuotientsByZero = some value →
          e.partialValue I = some value ∧ result.partialValue I = some value) ∧
      ∀ I : Interpretation K, result.value I = e.value I := by
  have hregroup : ∀ {limit : Nat} {e result : Expr},
      (Expr.parse limit e.toInfix).outcome = .ok result → result = e.regroup :=
    fun {_ e _} h => ((Expr.outcome_parse_eq_ok_iff e.derives_toInfix).mp h).2
  refine ⟨fun overZero => ⟨?_, ?_⟩, ?_⟩
  · rintro hscales limit e result hparse I rfl
    rw [hregroup hparse]
    exact Expr.partialValue_regroup hscales e
  · intro hsame
    exact scalesNumerators_of_partialValue_eq overZero
      (hsame 3 scaledReciprocal scaledReciprocalRead outcome_parse_scaledReciprocal)
  · intro limit e result hparse
    rw [hregroup hparse]
    refine ⟨fun I value hvalue => ⟨Expr.partialValue_of_withoutQuotientsByZero hvalue,
      Expr.partialValue_regroup_of_withoutQuotientsByZero hvalue⟩, fun I => ?_⟩
    have htotal := Expr.partialValue_regroup I.scalesNumerators_toPartial e
    rw [Expr.partialValue_toPartial, Expr.partialValue_toPartial] at htotal
    exact Option.some.inj htotal

/-- If every quotient by zero is one, `a * (1 / 0)` is two where `a` is, and is read as an
    expression that is one. -/
theorem value_changes_where_zero_divides_to_one :
    (Expr.parse 3 scaledReciprocal.toInfix).outcome = .ok scaledReciprocalRead ∧
      scaledReciprocal.partialValue (constantIdentifiers (2 : ℚ) fun _ => some 1) = some 2 ∧
      scaledReciprocalRead.partialValue (constantIdentifiers (2 : ℚ) fun _ => some 1) = some 1 := by
  refine ⟨outcome_parse_scaledReciprocal, ?_, ?_⟩
  · rw [partialValue_scaledReciprocal]
    exact congrArg some (mul_one 2)
  · exact partialValue_scaledReciprocalRead _ _

/-- `x + (6 * (x / y) - z)`, which loses both pairs of parentheses when it is written. -/
def nestedQuotient : Expr :=
  .sum (.identifier "x")
    (.difference (.product (.literal 6) (.quotient (.identifier "x") (.identifier "y")))
      (.identifier "z"))

/-- `x + 6 * x / y - z` as it is read. -/
def nestedQuotientRead : Expr :=
  .difference
    (.sum (.identifier "x")
      (.quotient (.product (.literal 6) (.identifier "x")) (.identifier "y")))
    (.identifier "z")

/-- Rational numbers with `y` to choose, and with a rule for quotients by zero. -/
def rationalsAt (y : ℚ) (overZero : ℚ → Option ℚ) : PartialInterpretation ℚ where
  identifier name := some (if name = "y" then y else 1)
  overZero := overZero
  power _ _ := none
  function _ _ := none

theorem value_of_parse_nestedQuotient :
    (Expr.parse 5 nestedQuotient.toInfix).outcome = .ok nestedQuotientRead ∧
      ScalesNumerators (fun a : ℚ => some (a * 5)) ∧
      nestedQuotient.partialValue (rationalsAt 0 fun a => some (a * 5)) = some 30 ∧
      nestedQuotientRead.partialValue (rationalsAt 0 fun a => some (a * 5)) = some 30 ∧
      ScalesNumerators (fun _ : ℚ => none) ∧
      nestedQuotient.partialValue (rationalsAt 0 fun _ => none) = none ∧
      nestedQuotientRead.partialValue (rationalsAt 0 fun _ => none) = none ∧
      nestedQuotient.partialValue (rationalsAt 4 fun _ => some 1).withoutQuotientsByZero =
        some (3 / 2) ∧
      nestedQuotientRead.partialValue (rationalsAt 4 fun _ => some 1) = some (3 / 2) := by
  have hparse : (Expr.parse 5 nestedQuotient.toInfix).outcome = .ok nestedQuotientRead := rfl
  have hfive : ScalesNumerators (fun a : ℚ => some (a * 5)) := .inr ⟨5, fun _ => rfl⟩
  have hnone : ScalesNumerators (fun _ : ℚ => none) := .inl fun _ => rfl
  have hthirty : nestedQuotient.partialValue (rationalsAt 0 fun a => some (a * 5)) = some 30 := by
    decide +kernel
  have hmissing : nestedQuotient.partialValue (rationalsAt 0 fun _ => none) = none := by
    decide +kernel
  have hvalue : nestedQuotient.partialValue (rationalsAt 4 fun _ => some 1).withoutQuotientsByZero =
      some (3 / 2) := by
    decide +kernel
  obtain ⟨hrules, hread⟩ := value_of_parse_toInfix ℚ
  exact ⟨hparse, hfive, hthirty, ((hrules _).mp hfive 5 _ _ hparse _ rfl).trans hthirty, hnone,
    hmissing, ((hrules _).mp hnone 5 _ _ hparse _ rfl).trans hmissing, hvalue,
    ((hread 5 _ _ hparse).1 _ _ hvalue).2⟩

end SymbolicCalculus
