/-
Module: SymbolicCalculus.Proofs.FirstOffences
Layer: Proofs
Purpose: Exactly when an expression can not be differentiated, told from the expression alone. Every
  node is listed with the nodes above it, in the order in which the nodes are read. Those without a
  power above them are visited, and a visited node offends by its level or by the power that it is.
  Differentiation fails if and only if some visited node offends, and then as the first one does.
Trusted boundary: human-reviewed spec
Main exports: Occurrence, Expr.occurrences, Expr.visited, HasPowerRule, Occurrence.Offends,
  derivative_fails_at_first_offence
-/
import SymbolicCalculus.Proofs.VisitedNodes

namespace SymbolicCalculus

/-! ### The nodes of an expression -/

/-- A node of an expression, with the nodes above it from the root down. -/
structure Occurrence where
  above : List Expr
  node : Expr
deriving DecidableEq, Repr

/-- All nodes of an expression that stands below the given nodes: each before its operands, and
    these from left to right. -/
def Expr.occurrences (above : List Expr) (e : Expr) : List Occurrence :=
  ⟨above, e⟩ ::
    match e with
    | .literal _ | .identifier _ => []
    | .binary op left right =>
        left.occurrences (above ++ [.binary op left right]) ++
          right.occurrences (above ++ [.binary op left right])
    | .call f argument => argument.occurrences (above ++ [.call f argument])

/-- Whether an expression is a power. -/
def Expr.isPower : Expr → Bool
  | .power _ _ => true
  | .literal _ | .identifier _ | .binary .. | .call .. => false

theorem Expr.isPower_iff {e : Expr} :
    e.isPower = true ↔ ∃ base exponent, e = .power base exponent := by
  unfold isPower
  split <;> simp_all

/-- The distance of a node from the root. -/
def Occurrence.level (o : Occurrence) : Nat :=
  o.above.length

/-- A node is visited if no power stands above it. -/
def Occurrence.isVisited (o : Occurrence) : Bool :=
  !o.above.any Expr.isPower

/-- The visited nodes of an expression, in order. -/
def Expr.visited (e : Expr) : List Occurrence :=
  (e.occurrences []).filter Occurrence.isVisited

/-- The powers that have a rule when differentiating by a variable. -/
inductive HasPowerRule (name : String) : Expr → Prop where
  | literalExponent (n : Int64) : HasPowerRule name (.power (.identifier name) (.literal n))
  | literalBase (n : Int64) : HasPowerRule name (.power (.literal n) (.identifier name))
  | identifierBase {other : String} : other ≠ name →
      HasPowerRule name (.power (.identifier other) (.identifier name))

/-- What is wrong with a visited node. Only a node within the limit is looked at more closely, and
    the variable to the least integer has a rule, but one that can not be applied. A power that is
    refused is kept whole in the fault, which shows it as it is written. -/
inductive Occurrence.Offends (settings : Settings) (o : Occurrence) : Fault → Prop where
  | tooDeep : settings.maxDepth < o.level → o.Offends settings (.nestingTooDeep settings.maxDepth)
  | leastExponent : o.level ≤ settings.maxDepth →
      o.node = .power (.identifier settings.withRespectTo) (.literal Int64.minValue) →
      o.Offends settings (.literalOutOfRange "-9223372036854775808")
  | withoutRule : o.level ≤ settings.maxDepth → settings.unsupportedPowers = .reject →
      o.node.isPower = true → o.node.mentions settings.withRespectTo = true →
      ¬ HasPowerRule settings.withRespectTo o.node →
      o.Offends settings (.unsupportedPower o.node)

/-! ### The visited nodes are those that differentiation comes to -/

/-- An occurrence as differentiation sees it, which counts the nodes above instead of keeping them. -/
def Occurrence.toVisit (o : Occurrence) : Visit :=
  ⟨o.level, o.node⟩

namespace Expr

/-- What stands above an expression stands above all its nodes. -/
theorem prefix_of_mem_occurrences {above : List Expr} {e : Expr} {o : Occurrence}
    (h : o ∈ e.occurrences above) : above <+: o.above := by
  induction e generalizing above with
  | literal value =>
      obtain rfl := List.mem_singleton.mp h
      exact List.prefix_refl above
  | identifier name =>
      obtain rfl := List.mem_singleton.mp h
      exact List.prefix_refl above
  | binary op left right ihl ihr =>
      rw [occurrences, List.mem_cons, List.mem_append] at h
      obtain rfl | hleft | hright := h
      · exact List.prefix_refl above
      · exact (List.prefix_append above _).trans (ihl hleft)
      · exact (List.prefix_append above _).trans (ihr hright)
  | call f argument ih =>
      rw [occurrences, List.mem_cons] at h
      obtain rfl | hargument := h
      · exact List.prefix_refl above
      · exact (List.prefix_append above _).trans (ih hargument)

/-- Below a power nothing is visited. -/
theorem filter_occurrences_of_any {above : List Expr} (h : above.any isPower = true) (e : Expr) :
    (e.occurrences above).filter Occurrence.isVisited = [] := by
  rw [List.filter_eq_nil_iff]
  intro o ho
  obtain ⟨below, hbelow⟩ := prefix_of_mem_occurrences ho
  simp [Occurrence.isVisited, ← hbelow, h]

/-- Where no power stands above an expression, its visited nodes are those that differentiation
    comes to, in the same order. -/
theorem map_toVisit_occurrences {above : List Expr} (h : above.any isPower = false) (e : Expr) :
    ((e.occurrences above).filter Occurrence.isVisited).map Occurrence.toVisit =
      e.visits above.length := by
  have hroot : ∀ {above : List Expr} (node : Expr), above.any isPower = false →
      Occurrence.isVisited ⟨above, node⟩ = true := by
    intro above node h
    simp [Occurrence.isVisited, h]
  have hbelow : ∀ {above : List Expr} {node : Expr}, above.any isPower = false →
      node.isPower = false → (above ++ [node]).any isPower = false := by
    intro above node h hnode
    simp only [List.any_append, h, List.any_cons, hnode, List.any_nil, Bool.or_false]
  -- the list of nodes above grows on the way down, until a power stands in it
  induction e generalizing above with
  | literal value =>
      rw [occurrences, List.filter_cons_of_pos (hroot _ h)]
      rfl
  | identifier name =>
      rw [occurrences, List.filter_cons_of_pos (hroot _ h)]
      rfl
  | binary op left right ihl ihr =>
      rw [occurrences, List.filter_cons_of_pos (hroot _ h), List.filter_append, List.map_cons,
        List.map_append]
      by_cases hop : op = .power
      · subst hop
        have hpower : (above ++ [power left right]).any isPower = true := by simp [isPower]
        rw [filter_occurrences_of_any hpower, filter_occurrences_of_any hpower]
        rfl
      · have hnode : (binary op left right).isPower = false := by
          cases op <;> first | rfl | exact absurd rfl hop
        rw [ihl (hbelow h hnode), ihr (hbelow h hnode), visits_binary hop, List.length_append]
        rfl
  | call f argument ih =>
      rw [occurrences, List.filter_cons_of_pos (hroot _ h), List.map_cons, ih (hbelow h rfl),
        List.length_append]
      rfl

/-- The visited nodes of a whole expression are those that differentiation comes to. -/
theorem map_toVisit_visited (e : Expr) : e.visited.map Occurrence.toVisit = e.visits 0 :=
  map_toVisit_occurrences rfl e

end Expr

/-! ### What a visited node is at fault for -/

/-- The powers with a rule are those of the two shapes that a rule is known for. -/
theorem hasPowerRule_iff {name : String} {base exponent : Expr} :
    HasPowerRule name (.power base exponent) ↔
      (∃ n, PowerShape.of name base exponent = .variableToLiteral n) ∨
        PowerShape.of name base exponent = .constantToVariable := by
  simp only [PowerShape.of_eq_variableToLiteral_iff, PowerShape.of_eq_constantToVariable_iff]
  constructor
  · intro h
    cases h with
    | literalExponent n => exact .inl ⟨n, rfl, rfl⟩
    | literalBase n => exact .inr ⟨rfl, by simp, rfl⟩
    | identifierBase hne => exact .inr ⟨rfl, by simpa using hne, rfl⟩
  · rintro (⟨n, rfl, rfl⟩ | ⟨hatom, hne, rfl⟩)
    · exact .literalExponent n
    · cases base with
      | literal n => exact .literalBase n
      | identifier other => exact .identifierBase (by simpa using hne)
      | binary op f g => cases hatom
      | call f g => cases hatom

/-- A power has no shape to go by exactly when it mentions the variable and has no rule. -/
theorem PowerShape.of_eq_unsupported_iff {name : String} {base exponent : Expr} :
    PowerShape.of name base exponent = .unsupported ↔
      (Expr.power base exponent).mentions name = true ∧
        ¬ HasPowerRule name (.power base exponent) := by
  rw [hasPowerRule_iff, ← Bool.not_eq_false, ← PowerShape.of_eq_constant_iff]
  cases PowerShape.of name base exponent <;> simp

/-- What is wrong with a power: its exponent can not be lowered, or it is to be refused. -/
theorem powerOffence_eq_some_iff {settings : Settings} {base exponent : Expr} {fault : Fault} :
    powerOffence settings base exponent = some fault ↔
      ((base = .identifier settings.withRespectTo ∧ exponent = .literal Int64.minValue) ∧
        fault = .literalOutOfRange "-9223372036854775808") ∨
      ((settings.unsupportedPowers = .reject ∧
        PowerShape.of settings.withRespectTo base exponent = .unsupported) ∧
        fault = .unsupportedPower (.power base exponent)) := by
  have htext : (Token.literal Int64.minValue).text = "-9223372036854775808" := by decide
  rw [← PowerShape.of_eq_variableToLiteral_iff, powerOffence]
  cases PowerShape.of settings.withRespectTo base exponent with
  | variableToLiteral n =>
      by_cases hn : n = Int64.minValue
      · simp [hn, htext, eq_comm]
      · simp [hn]
  | constantToVariable => simp
  | constant => simp
  | unsupported =>
      by_cases hpolicy : settings.unsupportedPowers = .reject
      · simp [hpolicy, eq_comm]
      · simp [hpolicy]

namespace Occurrence

variable {settings : Settings} {o : Occurrence} {fault : Fault}

/-- A power within the limit offends with what is wrong with it as a power. -/
theorem powerOffence_eq_some_iff_offends {base exponent : Expr}
    (hlevel : o.level ≤ settings.maxDepth) (hnode : o.node = .power base exponent) :
    powerOffence settings base exponent = some fault ↔ o.Offends settings fault := by
  rw [powerOffence_eq_some_iff, PowerShape.of_eq_unsupported_iff]
  constructor
  · rintro (⟨⟨rfl, rfl⟩, rfl⟩ | ⟨⟨hpolicy, hmentions, hrule⟩, rfl⟩)
    · exact .leastExponent hlevel hnode
    · rw [← hnode] at hmentions hrule ⊢
      exact .withoutRule hlevel hpolicy (by rw [hnode]; rfl) hmentions hrule
  · intro h
    cases h with
    | tooDeep hlt => exact absurd hlevel (Nat.not_le.mpr hlt)
    | leastExponent _ hleast =>
        rw [hnode, Expr.binary.injEq] at hleast
        exact .inl ⟨hleast.2, rfl⟩
    | withoutRule _ hpolicy _ hmentions hrule =>
        rw [hnode] at hmentions hrule ⊢
        exact .inr ⟨⟨hpolicy, hmentions, hrule⟩, rfl⟩

/-- A visited node offends with just the fault that differentiation finds in it. -/
theorem offence_eq_some_iff :
    o.toVisit.offence settings = some fault ↔ o.Offends settings fault := by
  obtain hlt | hlevel := Nat.lt_or_ge settings.maxDepth o.level
  · have hoffence : o.toVisit.offence settings = some (.nestingTooDeep settings.maxDepth) :=
      if_pos hlt
    rw [hoffence]
    constructor
    · rintro ⟨⟩
      exact .tooDeep hlt
    · intro h
      cases h with
      | tooDeep => rfl
      | leastExponent hle => exact absurd hlt (Nat.not_lt.mpr hle)
      | withoutRule hle => exact absurd hlt (Nat.not_lt.mpr hle)
  · by_cases hpower : o.node.isPower = true
    · obtain ⟨base, exponent, hnode⟩ := Expr.isPower_iff.mp hpower
      have hoffence : o.toVisit.offence settings = powerOffence settings base exponent := by
        rw [toVisit, hnode]
        exact if_neg (Nat.not_lt.mpr hlevel)
      rw [hoffence, powerOffence_eq_some_iff_offends hlevel hnode]
    · have hoffence : o.toVisit.offence settings = none :=
        Visit.offence_of_level_le hlevel fun base exponent hnode =>
          hpower (Expr.isPower_iff.mpr ⟨base, exponent, hnode⟩)
      rw [hoffence]
      constructor
      · nofun
      · intro h
        cases h with
        | tooDeep hlt => exact absurd hlt (Nat.not_lt.mpr hlevel)
        | leastExponent _ hnode => exact absurd (Expr.isPower_iff.mpr ⟨_, _, hnode⟩) hpower
        | withoutRule _ _ hnode => exact absurd hnode hpower

theorem offence_eq_none_iff :
    o.toVisit.offence settings = none ↔ ∀ fault, ¬ o.Offends settings fault := by
  simp only [← offence_eq_some_iff, Option.eq_none_iff_forall_ne_some]

end Occurrence

/-- A differentiation fails exactly when some visited node offends, and then with the fault of the
    first one that does, in the order in which the nodes are read. -/
theorem derivative_fails_at_first_offence (settings : Settings) (e : Expr) :
    ((∃ fault, (e.derivative settings).outcome = .error fault) ↔
      ∃ o ∈ e.visited, ∃ fault, o.Offends settings fault) ∧
    ∀ fault, (e.derivative settings).outcome = .error fault ↔
      ∃ before o after, e.visited = before ++ o :: after ∧ o.Offends settings fault ∧
        ∀ earlier ∈ before, ∀ other, ¬ earlier.Offends settings other := by
  have hfirst : ∀ fault, (e.derivative settings).outcome = .error fault ↔
      e.visited.findSome? (fun o => o.toVisit.offence settings) = some fault := by
    intro fault
    rw [e.failsWith_derivative.outcome_eq_error_iff, ← e.map_toVisit_visited, List.findSome?_map]
    rfl
  constructor
  · simp only [hfirst, ← Option.isSome_iff_exists, List.findSome?_isSome_iff,
      ← Occurrence.offence_eq_some_iff]
  · intro fault
    simp only [hfirst, List.findSome?_eq_some_iff, Occurrence.offence_eq_some_iff,
      Occurrence.offence_eq_none_iff]

/-- `sin(x ^ x) + ln(ln(a))`: the power is read before the leaf that lies too deep. -/
example : ((Expr.sum (.call .sin (.power (.identifier "x") (.identifier "x")))
    (.call .ln (.call .ln (.identifier "a")))).derivative
      { unsupportedPowers := .reject, maxDepth := 2 }).outcome =
    .error (.unsupportedPower (.power (.identifier "x") (.identifier "x"))) := rfl

end SymbolicCalculus
