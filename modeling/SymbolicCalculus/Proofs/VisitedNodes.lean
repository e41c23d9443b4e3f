/-
Module: SymbolicCalculus.Proofs.VisitedNodes
Layer: Proofs
Purpose: Which faults a differentiation comes to. It visits the nodes of an expression in order, a
  node before its operands, and goes into every operand but those of a power. Each visited node is
  an offence by itself or none: it lies beyond the limit, it is a power whose exponent can not be
  lowered, or it is a power without a rule that is to be refused. Differentiation fails with the
  first offence, and comes to an expression when there is none.
Trusted boundary: none
Main exports: Visit, Expr.visits, Visit.offence, FailsWith, FailsWith.outcome_eq_error_iff,
  Expr.failsWith_derivative, Expr.exists_offence_of_derivative, Expr.of_mem_visits,
  Expr.level_add_depth_of_mem_visits
-/
import SymbolicCalculus.Proofs.DerivativeSteps

namespace SymbolicCalculus

/-- A node that differentiation comes to, with the number of nodes above it. -/
structure Visit where
  level : Nat
  node : Expr
deriving DecidableEq, Repr

/-- The nodes that differentiation comes to, from the given level on. -/
def Expr.visits (level : Nat) (e : Expr) : List Visit :=
  ⟨level, e⟩ ::
    match e with
    | .literal _ | .identifier _ | .power _ _ => []
    | .binary _ left right => left.visits (level + 1) ++ right.visits (level + 1)
    | .call _ argument => argument.visits (level + 1)

/-- Differentiation comes to the operands of an operation unless that is a power. -/
theorem Expr.visits_binary {op : BinaryOp} (hop : op ≠ .power) (level : Nat) (left right : Expr) :
    (binary op left right).visits level =
      ⟨level, .binary op left right⟩ :: (left.visits (level + 1) ++ right.visits (level + 1)) := by
  cases op with
  | add | subtract | multiply | divide => rfl
  | power => exact absurd rfl hop

/-- What is wrong with a power, when differentiating under the given settings. -/
def powerOffence (settings : Settings) (base exponent : Expr) : Option Fault :=
  match PowerShape.of settings.withRespectTo base exponent with
  | .variableToLiteral n =>
      if n = Int64.minValue then some (.literalOutOfRange (Token.literal n).text) else none
  | .constantToVariable | .constant => none
  | .unsupported =>
      if settings.unsupportedPowers = .reject then some (.unsupportedPower (.power base exponent))
      else none

/-- What is wrong with a visited node, apart from its operands. -/
def Visit.offence (settings : Settings) (visit : Visit) : Option Fault :=
  if settings.maxDepth < visit.level then some (.nestingTooDeep settings.maxDepth)
  else
    match visit.node with
    | .power base exponent => powerOffence settings base exponent
    | .literal _ | .identifier _ | .binary .. | .call .. => none

/-- Within the limit only a power can be an offence. -/
theorem Visit.offence_of_level_le {settings : Settings} {level : Nat}
    (hlevel : level ≤ settings.maxDepth) {node : Expr}
    (hnode : ∀ base exponent, node ≠ .power base exponent) :
    Visit.offence settings ⟨level, node⟩ = none := by
  rw [offence, if_neg (Nat.not_lt.mpr hlevel)]
  split
  · rename_i base exponent hpower
    exact absurd hpower (hnode base exponent)
  all_goals rfl

/-- A computation fails with an offence if there is one, and otherwise comes to a value. -/
inductive FailsWith {α : Type} : Option Fault → Logged Fault α → Prop where
  | value {x : Logged Fault α} {a : α} : x.outcome = .ok a → FailsWith none x
  | fault {x : Logged Fault α} {fault : Fault} : x.outcome = .error fault → FailsWith (some fault) x

namespace FailsWith

variable {α β : Type} {offence offence' : Option Fault} {x : Logged Fault α}

/-- A computation fails with its offence and with nothing else. -/
theorem outcome_eq_error_iff {fault : Fault} (h : FailsWith offence x) :
    x.outcome = .error fault ↔ offence = some fault := by
  cases h with
  | value hvalue => simp [hvalue]
  | fault hfault => simp [hfault]

/-- The first offence of two parts is that of the first part, or else that of the second. -/
theorem bind {f : α → Logged Fault β} (h : FailsWith offence x)
    (hrest : ∀ a, FailsWith offence' (f a)) : FailsWith (offence.or offence') (x >>= f) := by
  cases h with
  | fault hfault =>
      apply fault
      rw [Logged.outcome_bind, hfault, except_error_bind]
  | @value _ a hvalue =>
      have hbind : (x >>= f).outcome = (f a).outcome := by
        rw [Logged.outcome_bind, hvalue, except_ok_bind]
      cases hrest a with
      | value h => exact value (hbind.trans h)
      | fault h => exact fault (hbind.trans h)

/-- A rule that is applied at the end adds no offence. -/
theorem bind_pure {rule : α → β} (h : FailsWith offence x) :
    FailsWith offence (x >>= fun a => pure (rule a)) := by
  have hbind : FailsWith (offence.or none) (x >>= fun a => pure (rule a)) :=
    h.bind fun a => value (Logged.outcome_pure (rule a))
  rwa [Option.or_none] at hbind

end FailsWith

namespace Expr

variable {settings : Settings}

theorem failsWith_powerDerivative (base exponent : Expr) :
    FailsWith (powerOffence settings base exponent) (powerDerivative settings base exponent) := by
  unfold powerOffence powerDerivative
  cases PowerShape.of settings.withRespectTo base exponent with
  | variableToLiteral n =>
      dsimp only
      split
      · exact .fault rfl
      · exact .value rfl
  | constantToVariable => exact .value rfl
  | constant => exact .value rfl
  | unsupported =>
      cases settings.unsupportedPowers with
      | zero => exact .value rfl
      | reject => exact .fault rfl

/-- A node beyond the limit is an offence, and nothing behind it is looked at. -/
theorem failsWith_of_level {level : Nat} {e : Expr}
    (h : level ≤ settings.maxDepth →
      FailsWith ((e.visits level).findSome? (·.offence settings))
        (e.derivativeAtLevel settings level)) :
    FailsWith ((e.visits level).findSome? (·.offence settings))
      (e.derivativeAtLevel settings level) := by
  rcases Nat.lt_or_ge settings.maxDepth level with hlt | hlevel
  · have hoffence : Visit.offence settings ⟨level, e⟩ =
        some (.nestingTooDeep settings.maxDepth) := if_pos hlt
    rw [visits.eq_def, List.findSome?_cons, hoffence, derivativeAtLevel_of_lt hlt]
    exact .fault rfl
  · exact h hlevel

/-- Differentiation fails with the first offence among the nodes that it visits. -/
theorem failsWith_derivativeAtLevel (level : Nat) (e : Expr) :
    FailsWith ((e.visits level).findSome? (·.offence settings))
      (e.derivativeAtLevel settings level) := by
  induction e generalizing level with
  | literal value =>
      refine failsWith_of_level fun hlevel => ?_
      rw [visits, List.findSome?_singleton, Visit.offence_of_level_le hlevel (by simp),
        derivativeAtLevel_literal hlevel]
      exact .value rfl
  | identifier name =>
      refine failsWith_of_level fun hlevel => ?_
      rw [visits, List.findSome?_singleton, Visit.offence_of_level_le hlevel (by simp),
        derivativeAtLevel_identifier hlevel]
      exact .value rfl
  | binary op f g ihf ihg =>
      refine failsWith_of_level fun hlevel => ?_
      by_cases hop : op = .power
      · subst hop
        have hoffence : Visit.offence settings ⟨level, .power f g⟩ = powerOffence settings f g :=
          if_neg (Nat.not_lt.mpr hlevel)
        rw [visits, List.findSome?_singleton, hoffence, derivativeAtLevel_power hlevel]
        exact failsWith_powerDerivative f g
      · rcases exists_rule hop f g with ⟨rule, hrule⟩
        rw [visits_binary hop, List.findSome?_cons,
          Visit.offence_of_level_le hlevel (by simp [hop]), List.findSome?_append, hrule hlevel]
        exact (ihf (level + 1)).bind fun f' => (ihg (level + 1)).bind_pure
  | call f g ih =>
      refine failsWith_of_level fun hlevel => ?_
      rw [visits, List.findSome?_cons, Visit.offence_of_level_le hlevel (by simp),
        derivativeAtLevel_call hlevel]
      have hnote : FailsWith none (Logged.note (.chainRule (.call f g))) := .value rfl
      exact hnote.bind fun _ => (ih (level + 1)).bind_pure

/-- Differentiation of a whole expression fails with its first offence. -/
theorem failsWith_derivative (e : Expr) :
    FailsWith ((e.visits 0).findSome? (·.offence settings)) (e.derivative settings) :=
  e.failsWith_derivativeAtLevel 0

/-- Where differentiation fails, some node that it visits is at fault. -/
theorem exists_offence_of_derivative {e : Expr} {fault : Fault}
    (h : (e.derivative settings).outcome = .error fault) :
    ∃ visit ∈ e.visits 0, visit.offence settings = some fault :=
  List.exists_of_findSome?_eq_some (e.failsWith_derivative.outcome_eq_error_iff.mp h)

/-- What a node passes on to its operands, one level below, holds of every node that is visited. -/
theorem of_mem_visits {motive : Nat → Expr → Prop}
    (hbinary : ∀ {level op f g}, motive level (.binary op f g) →
      motive (level + 1) f ∧ motive (level + 1) g)
    (hcall : ∀ {level f g}, motive level (.call f g) → motive (level + 1) g)
    {level : Nat} {e : Expr} (h : motive level e) {visit : Visit}
    (hvisit : visit ∈ e.visits level) : motive visit.level visit.node := by
  induction e generalizing level with
  | literal value =>
      rw [List.mem_singleton.mp hvisit]
      exact h
  | identifier name =>
      rw [List.mem_singleton.mp hvisit]
      exact h
  | binary op f g ihf ihg =>
      by_cases hop : op = .power
      · subst hop
        rw [List.mem_singleton.mp hvisit]
        exact h
      · rw [visits_binary hop, List.mem_cons, List.mem_append] at hvisit
        rcases hvisit with rfl | hf | hg
        · exact h
        · exact ihf (hbinary h).1 hf
        · exact ihg (hbinary h).2 hg
  | call f g ih =>
      rcases List.mem_cons.mp hvisit with rfl | hg
      · exact h
      · exact ih (hcall h) hg

/-- Going one level down costs at least one of the levels that are left. -/
theorem level_add_depth_of_mem_visits {level : Nat} {e : Expr} {visit : Visit}
    (h : visit ∈ e.visits level) : visit.level + visit.node.depth ≤ level + e.depth := by
  refine of_mem_visits (motive := fun l node => l + node.depth ≤ level + e.depth) ?_ ?_
    (Nat.le_refl _) h
  · intro l op f g hnode
    rw [depth] at hnode
    omega
  · intro l f g hnode
    rw [depth] at hnode
    omega

end Expr

end SymbolicCalculus
