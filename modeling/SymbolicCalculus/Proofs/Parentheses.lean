/-
Module: SymbolicCalculus.Proofs.Parentheses
Layer: Proofs
Purpose: Which parentheses of a list match, told by where they stand and not by how they are read. A
  parenthesis is matched when the tokens between it and another are balanced. A token lies in the
  argument of a function when the parenthesis behind the function is closed, but not before the
  token; such functions are counted over all that stands before it.
Trusted boundary: human-reviewed spec
Main exports: IsClosed, IsOpened, HasUnclosed, opensArgument, argumentsAround, isClosed_iff,
  isClosed_of_suffix, not_isOpened_of_balanced, argumentsAround_append
-/
import SymbolicCalculus.Proofs.SpanConversion
import Mathlib.Data.List.Infix

namespace SymbolicCalculus

/-- The parenthesis that opens just before these tokens is closed among them. -/
def IsClosed (behind : List Token) : Prop :=
  ∃ inside after, behind = inside ++ .closeParen :: after ∧ Span.balanced 0 inside = true

/-- The parenthesis that closes just behind these tokens is opened among them. -/
def IsOpened (before : List Token) : Prop :=
  ∃ inside, .openParen :: inside <:+ before ∧ Span.balanced 0 inside = true

/-- Some parenthesis is opened and never closed. -/
def HasUnclosed (tokens : List Token) : Prop :=
  ∃ behind, .openParen :: behind <:+ tokens ∧ ¬ IsClosed behind

variable {opened : Nat} {tokens before behind inside rest : List Token} {token : Token}

/-! ### Matching, decided from left to right -/

theorem isClosed_iff : IsClosed behind ↔ Postfix.closesAfter 0 behind = true := by
  rw [Span.closesAfter_eq_isSome_split, Option.isSome_iff_exists]
  constructor
  · intro h
    rcases h with ⟨inside, after, hbehind⟩
    exact ⟨(inside, after), Span.split_eq_some_iff.mpr hbehind⟩
  · intro h
    rcases h with ⟨⟨inside, after⟩, hsplit⟩
    exact ⟨inside, after, Span.split_eq_some_iff.mp hsplit⟩

/-- A parenthesis is opened by the first token or further on. -/
theorem exists_openParen_cons {p : List Token → Prop} :
    (∃ inside, .openParen :: inside <:+ token :: rest ∧ p inside) ↔
      token = .openParen ∧ p rest ∨ ∃ inside, .openParen :: inside <:+ rest ∧ p inside := by
  simp only [List.suffix_cons_iff, List.cons.injEq, or_and_right, exists_or, and_assoc,
    exists_and_left, exists_eq_left, @eq_comm _ Token.openParen]

theorem not_isOpened_nil : ¬ IsOpened [] := by
  simp [IsOpened]

theorem isOpened_cons : IsOpened (token :: rest) ↔
    token = .openParen ∧ Span.balanced 0 rest = true ∨ IsOpened rest :=
  exists_openParen_cons

theorem not_hasUnclosed_nil : ¬ HasUnclosed [] := by
  simp [HasUnclosed]

theorem hasUnclosed_cons : HasUnclosed (token :: rest) ↔
    token = .openParen ∧ ¬ IsClosed rest ∨ HasUnclosed rest :=
  exists_openParen_cons

instance : DecidablePred IsClosed := fun _ => decidable_of_iff _ isClosed_iff.symm

instance decidableIsOpened : DecidablePred IsOpened
  | [] => .isFalse not_isOpened_nil
  | _ :: rest =>
      have := decidableIsOpened rest
      decidable_of_iff _ isOpened_cons.symm

instance decidableHasUnclosed : DecidablePred HasUnclosed
  | [] => .isFalse not_hasUnclosed_nil
  | _ :: rest =>
      have := decidableHasUnclosed rest
      decidable_of_iff _ hasUnclosed_cons.symm

/-! ### Balanced tokens -/

/-- Balanced tokens do not close a parenthesis further out. -/
theorem closesAfter_of_balanced (h : Span.balanced opened tokens = true) (outer : Nat) :
    Postfix.closesAfter (opened + outer) tokens = false := by
  have hempty := Span.closesAfter_append_of_balanced h outer []
  rw [List.append_nil] at hempty
  rw [hempty]
  cases outer <;> rfl

theorem not_isClosed_of_balanced (h : Span.balanced 0 tokens = true) : ¬ IsClosed tokens := by
  rw [isClosed_iff, Bool.not_eq_true]
  exact closesAfter_of_balanced h 0

/-- A parenthesis that is opened among balanced tokens is closed among them. -/
theorem isClosed_of_suffix (h : Span.balanced opened tokens = true)
    (hsuffix : .openParen :: behind <:+ tokens) : IsClosed behind := by
  induction tokens generalizing opened with
  | nil => exact absurd (List.suffix_nil.mp hsuffix) (List.cons_ne_nil _ _)
  | cons token rest ih =>
      rcases List.suffix_cons_iff.mp hsuffix with hhere | hlater
      · cases hhere
        rcases Span.exists_of_balanced_openParen h with ⟨inside, after, rfl, hinside, -⟩
        exact ⟨inside, after, rfl, hinside⟩
      · exact ih (Span.balanced_cons.mp h).2 hlater

theorem not_hasUnclosed_of_balanced (h : Span.balanced opened tokens = true) :
    ¬ HasUnclosed tokens := by
  intro hunclosed
  rcases hunclosed with ⟨behind, hsuffix, hbehind⟩
  exact hbehind (isClosed_of_suffix h hsuffix)

/-- What closes behind balanced tokens was opened further out. -/
theorem not_isOpened_of_balanced (h : Span.balanced opened tokens = true) : ¬ IsOpened tokens := by
  intro hopened
  rcases hopened with ⟨inside, hsuffix, hinside⟩
  exact not_isClosed_of_balanced hinside (isClosed_of_suffix h hsuffix)

/-! ### Arguments around a token -/

/-- Whether a function stands first whose parenthesis is closed in what stands behind these tokens,
    and not in them. What stands just behind them lies in its argument. -/
def opensArgument (behind : List Token) : List Token → Bool
  | .function _ :: .openParen :: inside => ¬ IsClosed inside ∧ IsClosed (inside ++ behind)
  | _ => false

/-- The number of functions with an argument that the token between two lists lies in. -/
def argumentsAround (before behind : List Token) : Nat :=
  before.tails.countP (opensArgument behind)

theorem argumentsAround_cons (token : Token) (before behind : List Token) :
    argumentsAround (token :: before) behind =
      argumentsAround before behind + if opensArgument behind (token :: before) then 1 else 0 := by
  rw [argumentsAround, List.tails, List.countP_cons, argumentsAround]

/-- A function opens one argument with its parenthesis. -/
theorem argumentsAround_opening (f : ElementaryFunction) (h : IsClosed behind) :
    argumentsAround [.function f, .openParen] behind = 1 := by
  have hopens : opensArgument behind [.function f, .openParen] = true :=
    decide_eq_true ⟨not_isClosed_of_balanced rfl, h⟩
  rw [argumentsAround_cons, hopens]
  rfl

/-- Behind tokens that close nothing further out, what was open is open. -/
theorem isClosed_append_iff {after : List Token}
    (hafter : ∀ opened, Postfix.closesAfter opened after = false) :
    IsClosed (inside ++ after) ↔ IsClosed inside := by
  suffices h : ∀ opened, Postfix.closesAfter opened (inside ++ after) =
      Postfix.closesAfter opened inside by
    rw [isClosed_iff, isClosed_iff, h]
  induction inside with
  | nil =>
      intro opened
      rw [List.nil_append, hafter]
      cases opened <;> rfl
  | cons token rest ih =>
      intro opened
      by_cases hclose : token = .closeParen ∧ opened = 0
      · rcases hclose with ⟨rfl, rfl⟩
        rfl
      · rw [List.cons_append, Span.closesAfter_cons _ hclose, Span.closesAfter_cons _ hclose, ih]

/-- Arguments are counted over two parts of what stands before, if the second does not belong to a
    function at the end of the first and closes nothing that the first opens. -/
theorem argumentsAround_append {first second : List Token}
    (hfirst : ∀ f, first.getLast? ≠ some (.function f))
    (hsecond : ∀ opened, Postfix.closesAfter opened second = false) (behind : List Token) :
    argumentsAround (first ++ second) behind =
      argumentsAround first (second ++ behind) + argumentsAround second behind := by
  induction first with
  | nil => exact (Nat.zero_add _).symm
  | cons token rest ih =>
      -- a function of the first part has its parenthesis there too
      have hopens : opensArgument behind (token :: rest ++ second) =
          opensArgument (second ++ behind) (token :: rest) := by
        cases token with
        | function f =>
            cases rest with
            | nil => exact absurd rfl (hfirst f)
            | cons next inside =>
                cases next with
                | openParen =>
                    simp [opensArgument, isClosed_append_iff hsecond]
                | literal _ | identifier _ | function _ | operator _ | closeParen => rfl
        | literal _ | identifier _ | operator _ | openParen | closeParen => rfl
      have hrest : ∀ f, rest.getLast? ≠ some (.function f) := by
        intro f hlast
        apply hfirst f
        rw [List.getLast?_cons, hlast]
        rfl
      rw [List.cons_append, argumentsAround_cons, ← List.cons_append, hopens, ih hrest,
        argumentsAround_cons, Nat.add_right_comm]

/-- Balanced tokens open no argument for what stands behind them. -/
theorem argumentsAround_of_balanced (h : Span.balanced opened tokens = true)
    (behind : List Token) : argumentsAround tokens behind = 0 := by
  induction tokens generalizing opened with
  | nil => rfl
  | cons token rest ih =>
      have hrest := (Span.balanced_cons.mp h).2
      have hopens : opensArgument behind (token :: rest) = false := by
        unfold opensArgument
        split
        · rename_i inside htokens
          cases htokens
          have hclosed := isClosed_of_suffix hrest List.suffix_rfl
          exact decide_eq_false fun hopen => hopen.1 hclosed
        · rfl
      rw [argumentsAround_cons, hopens, ih hrest]
      rfl

end SymbolicCalculus
