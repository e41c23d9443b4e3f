/-
Module: SymbolicCalculus.Proofs.DerivativeLanguage
Layer: Proofs
Purpose: A derivative is an expression of the same language. Every rule puts together what is there
  and adds the integers from zero to two, so whatever holds of an expression leaf by leaf holds of
  its derivative, but for two places: the exponent of a power is lowered, and four functions take a
  minus sign. So no name is new, and a sign appears in those two places only. Where it does not, the
  derivative of a text is a text again, which is read as what it shows.
Trusted boundary: human-reviewed spec
Main exports: ElementaryFunction.cofunctions, Expr.OfLeaves, Expr.OfLeaves.of_hasDerivative,
  Expr.KeepsSign, derivative_stays_readable
-/
import SymbolicCalculus.Proofs.DerivativeRelation
import SymbolicCalculus.Proofs.ReadExpressions
import SymbolicCalculus.Proofs.RenderingEquality
import SymbolicCalculus.Proofs.Value

namespace SymbolicCalculus

/-- The functions whose derivatives carry a minus sign. -/
def ElementaryFunction.cofunctions : List ElementaryFunction :=
  [.cos, .cot, .arccos, .arccot]

namespace Expr

/-! ### What holds of an expression leaf by leaf -/

/-- A property that an expression has when its leaves have it, and that small integers have. -/
structure OfLeaves (P : Expr → Prop) : Prop where
  binary : ∀ {op f g}, P (.binary op f g) ↔ P f ∧ P g
  call : ∀ {f g}, P (.call f g) ↔ P g
  zero : P (.literal 0)
  one : P (.literal 1)
  two : P (.literal 2)

namespace OfLeaves

variable {P : Expr → Prop} (hP : OfLeaves P) {f g f' g' : Expr}
include hP

/-! ### One lemma for each rule -/

theorem square (hg : P g) : P g.square :=
  hP.binary.mpr ⟨hg, hP.two⟩

theorem sumRule (hf : P f') (hg : P g') : P (sumRule f' g') := by
  unfold Expr.sumRule
  split_ifs
  · exact hg
  · exact hf
  · exact hP.binary.mpr ⟨hP.two, hf⟩
  · exact hP.binary.mpr ⟨hf, hg⟩

theorem differenceRule (hf : P f') (hg : P g') : P (differenceRule f' g') := by
  unfold Expr.differenceRule
  split_ifs
  · exact hf
  · exact hP.binary.mpr ⟨hf, hg⟩

theorem productRule (hf : P f) (hg : P g) (hf' : P f') (hg' : P g') :
    P (productRule f g f' g') := by
  have hleft : P (.product f' g) := hP.binary.mpr ⟨hf', hg⟩
  have hright : P (.product f g') := hP.binary.mpr ⟨hf, hg'⟩
  unfold Expr.productRule
  split_ifs
  · exact hP.zero
  · exact hright
  · exact hleft
  · exact hP.binary.mpr ⟨hleft, hright⟩

theorem quotientRule (hf : P f) (hg : P g) (hf' : P f') (hg' : P g') :
    P (quotientRule f g f' g') := by
  have hleft : P (.product f' g) := hP.binary.mpr ⟨hf', hg⟩
  have hright : P (.product f g') := hP.binary.mpr ⟨hf, hg'⟩
  exact hP.binary.mpr ⟨hP.binary.mpr ⟨hleft, hright⟩, hP.square hg⟩

/-- Four entries of the table need a minus sign, and all others are put together from the argument
    and small integers. -/
theorem derivativeAt {f : ElementaryFunction} (hg : P g)
    (hminus : f ∈ ElementaryFunction.cofunctions → P (.literal (-1))) : P (f.derivativeAt g) := by
  have hroot : P g.sqrtOneMinusSquare := hP.call.mpr (hP.binary.mpr ⟨hP.one, hP.square hg⟩)
  have hsum : P (.sum (.literal 1) g.square) := hP.binary.mpr ⟨hP.one, hP.square hg⟩
  cases f with
  | sin => exact hP.call.mpr hg
  | cos => exact hP.binary.mpr ⟨hminus (by decide), hP.call.mpr hg⟩
  | tan => exact hP.binary.mpr ⟨hP.one, hP.square (hP.call.mpr hg)⟩
  | cot => exact hP.binary.mpr ⟨hminus (by decide), hP.square (hP.call.mpr hg)⟩
  | arcsin => exact hP.binary.mpr ⟨hP.one, hroot⟩
  | arccos => exact hP.binary.mpr ⟨hminus (by decide), hroot⟩
  | arctan => exact hP.binary.mpr ⟨hP.one, hsum⟩
  | arccot => exact hP.binary.mpr ⟨hminus (by decide), hsum⟩
  | ln => exact hP.binary.mpr ⟨hP.one, hg⟩
  | sqrt => exact hP.binary.mpr ⟨hP.one, hP.binary.mpr ⟨hP.two, hP.call.mpr hg⟩⟩

/-! ### The induction over the rules -/

/-- What an expression has by its leaves, all its nodes have. -/
theorem of_mem_subtrees {root e : Expr} (hroot : P root) (he : e ∈ root.subtrees) : P e := by
  induction root with
  | literal n =>
      obtain rfl := List.mem_singleton.mp he
      exact hroot
  | identifier name =>
      obtain rfl := List.mem_singleton.mp he
      exact hroot
  | binary op f g ihf ihg =>
      obtain ⟨hf, hg⟩ := hP.binary.mp hroot
      rw [subtrees, List.mem_cons, List.mem_append] at he
      obtain rfl | hleft | hright := he
      · exact hroot
      · exact ihf hf hleft
      · exact ihg hg hright
  | call f g ih =>
      rw [subtrees, List.mem_cons] at he
      obtain rfl | hargument := he
      · exact hroot
      · exact ih (hP.call.mp hroot) hargument

/-- What an expression has by its leaves, its derivative has, if the lowered exponents and the minus
    signs have it where there are any. -/
theorem of_hasDerivative {settings : Settings} {root e e' : Expr} (hroot : P root)
    (hpower : ∀ n : Int64, n ≠ Int64.minValue →
      .power (.identifier settings.withRespectTo) (.literal n) ∈ root.subtrees →
      P (.literal (n - 1)))
    (hminus : ∀ f g, .call f g ∈ root.subtrees → f ∈ ElementaryFunction.cofunctions →
      P (.literal (-1)))
    (h : HasDerivative settings e e') (he : e ∈ root.subtrees) : P e' := by
  -- the rules also copy operands, which have the property as nodes of the root
  induction h with
  | literal _ => exact hP.zero
  | «variable» => exact hP.one
  | constant _ => exact hP.zero
  | sum _ _ ihf ihg =>
      obtain ⟨hf, hg⟩ := operands_mem_subtrees he
      exact hP.sumRule (ihf hf) (ihg hg)
  | difference _ _ ihf ihg =>
      obtain ⟨hf, hg⟩ := operands_mem_subtrees he
      exact hP.differenceRule (ihf hf) (ihg hg)
  | product _ _ ihf ihg =>
      obtain ⟨hf, hg⟩ := operands_mem_subtrees he
      exact hP.productRule (hP.of_mem_subtrees hroot hf) (hP.of_mem_subtrees hroot hg) (ihf hf)
        (ihg hg)
  | quotient _ _ ihf ihg =>
      obtain ⟨hf, hg⟩ := operands_mem_subtrees he
      exact hP.quotientRule (hP.of_mem_subtrees hroot hf) (hP.of_mem_subtrees hroot hg) (ihf hf)
        (ihg hg)
  | variablePower hn =>
      obtain ⟨hvariable, hexponent⟩ := hP.binary.mp (hP.of_mem_subtrees hroot he)
      exact hP.binary.mpr ⟨hexponent, hP.binary.mpr ⟨hvariable, hpower _ hn he⟩⟩
  | exponential _ _ =>
      have hself := hP.of_mem_subtrees hroot he
      exact hP.binary.mpr ⟨hP.call.mpr (hP.binary.mp hself).1, hself⟩
  | constantPower _ => exact hP.zero
  | ignoredPower _ _ => exact hP.zero
  | call _ ih =>
      have hg := argument_mem_subtrees he
      exact hP.binary.mpr
        ⟨hP.derivativeAt (hP.of_mem_subtrees hroot hg) (hminus _ _ he), ih hg⟩

end OfLeaves

/-! ### Names and signs -/

/-- To mention no name but those of a given expression is a matter of the leaves. -/
theorem ofLeaves_mentions (root : Expr) :
    OfLeaves fun e => ∀ name, e.mentions name = true → root.mentions name = true where
  binary := forall_mentions_binary
  call := forall_mentions_call
  zero := nofun
  one := nofun
  two := nofun

/-- To have no negative literal is a matter of the leaves. -/
theorem ofLeaves_hasNegativeLiteral : OfLeaves fun e => e.hasNegativeLiteral = false where
  binary := Bool.or_eq_false_iff
  call := Iff.rfl
  zero := rfl
  one := rfl
  two := rfl

/-- A derivative mentions no name that the expression does not mention. -/
theorem mentions_of_hasDerivative {settings : Settings} {e e' : Expr}
    (h : HasDerivative settings e e') :
    ∀ name, e'.mentions name = true → e.mentions name = true :=
  (ofLeaves_mentions e).of_hasDerivative (fun _ hname => hname) (fun _ _ _ => nofun)
    (fun _ _ _ _ => nofun) h e.self_mem_subtrees

/-- The expressions in which differentiation by a variable brings in no sign. -/
structure KeepsSign (name : String) (e : Expr) : Prop where
  unsigned : e.hasNegativeLiteral = false
  calls : ∀ f g, .call f g ∈ e.subtrees → f ∉ ElementaryFunction.cofunctions
  powers : .power (.identifier name) (.literal 0) ∉ e.subtrees

/-- One below an integer above zero is no negative literal. -/
theorem hasNegativeLiteral_sub_one {n : Int64} (hn : (literal n).hasNegativeLiteral = false)
    (hzero : n ≠ 0) : (literal (n - 1)).hasNegativeLiteral = false := by
  have hne : n.toInt ≠ 0 := fun h => hzero (Int64.toInt_inj.mp h)
  have hleast : n ≠ Int64.minValue := by
    rintro rfl
    cases hn
  simp only [hasNegativeLiteral, decide_eq_false_iff_not, toInt_sub_one hleast] at hn ⊢
  omega

/-- A derivative has no negative literal where differentiation brings in none. -/
theorem KeepsSign.of_hasDerivative {settings : Settings} {e e' : Expr}
    (hkeeps : KeepsSign settings.withRespectTo e) (h : HasDerivative settings e e') :
    e'.hasNegativeLiteral = false := by
  refine ofLeaves_hasNegativeLiteral.of_hasDerivative hkeeps.unsigned ?_ ?_ h e.self_mem_subtrees
  · intro n _ hpower
    have hexponent := ofLeaves_hasNegativeLiteral.of_mem_subtrees hkeeps.unsigned
      (operands_mem_subtrees hpower).2
    refine hasNegativeLiteral_sub_one hexponent ?_
    rintro rfl
    exact hkeeps.powers hpower
  · intro f g hcall hf
    exact absurd hf (hkeeps.calls f g hcall)

end Expr

/-- A derivative mentions no new names, and it has no negative literal where differentiation brings
    in no sign. So the derivative of such a text is read again under any limit that is large enough,
    as an expression that is written just so, and it is differentiated again from there. -/
theorem derivative_stays_readable (settings : Settings) :
    (∀ e e' : Expr, (e.derivative settings).outcome = .ok e' →
      (∀ name, e'.mentions name = true → e.mentions name = true) ∧
        (e.KeepsSign settings.withRespectTo → e'.hasNegativeLiteral = false)) ∧
    ∀ text e line, (Expr.read settings.maxDepth text).outcome = .ok e →
      e.KeepsSign settings.withRespectTo → (differentiate settings text).outcome = .ok line →
      ∃ result bound, result.render = line ∧
        (∀ limit, bound ≤ limit → (Expr.read limit line).outcome = .ok result) ∧
        ∀ again : Settings, again.validate = .ok () → bound ≤ again.maxDepth →
          (∃ second, (differentiate again line).outcome = .ok second) ∨
            again.unsupportedPowers = .reject ∧ ∃ power,
              (differentiate again line).outcome = .error (.plain (.unsupportedPower power)) := by
  constructor
  · intro e e' he'
    have hderivative : HasDerivative settings e e' := hasDerivative_of_derivative he'
    exact ⟨Expr.mentions_of_hasDerivative hderivative, fun hkeeps =>
      hkeeps.of_hasDerivative hderivative⟩
  · intro text e line hread hkeeps hline
    obtain ⟨-, e₀, e', hread₀, he', rfl⟩ := outcome_differentiate_eq_ok_iff.mp hline
    obtain rfl : e = e₀ := Except.ok.inj (hread.symm.trans hread₀)
    have hderivative : HasDerivative settings e e' := hasDerivative_of_derivative he'
    -- a name that differentiation had made up could not be read again
    have hnames : ∀ name, e'.mentions name = true → Settings.isVariable name = true :=
      fun name hname =>
        Expr.isVariable_of_read hread name (Expr.mentions_of_hasDerivative hderivative name hname)
    have hreread : ∀ limit, e'.regroup.depth ≤ limit →
        (Expr.read limit e'.render).outcome = .ok e'.regroup := fun limit hlimit =>
      (Expr.outcome_read_render_eq_ok_iff hnames).mpr
        ⟨hkeeps.of_hasDerivative hderivative, hlimit, rfl⟩
    have hrender : e'.regroup.render = e'.render := congrArg Token.infixLine e'.toInfix_regroup
    exact ⟨e'.regroup, e'.regroup.depth, hrender, hreread, fun again hvalid hlimit =>
      differentiated_or_refused_of_read hvalid (hreread _ hlimit)⟩

/-- `a * sin(x ^ 2)` -/
def scaledSine : Expr :=
  .product (.identifier "a") (.call .sin (.power (.identifier "x") (.literal 2)))

/-- `a * (cos(x ^ 2) * (2 * x ^ 1))`, which is written without the parentheses. -/
def scaledSineDerivative : Expr :=
  .product (.identifier "a")
    (.product (.call .cos (.power (.identifier "x") (.literal 2)))
      (.product (.literal 2) (.power (.identifier "x") (.literal 1))))

theorem keepsSign_scaledSine : scaledSine.KeepsSign "x" where
  unsigned := by decide
  calls := by
    intro f g hcall
    obtain ⟨rfl, -⟩ : f = .sin ∧ g = .power (.identifier "x") (.literal 2) := by
      simpa [scaledSine, Expr.subtrees] using hcall
    decide
  powers := by decide

theorem derivative_stays_readable_scaledSine :
    (Expr.read 512 "a * sin(x ^ 2)").outcome = .ok scaledSine ∧
      scaledSine.KeepsSign "x" ∧
      (scaledSine.derivative {}).outcome = .ok scaledSineDerivative ∧
      (differentiate {} "a * sin(x ^ 2)").outcome = .ok "a * cos(x ^ 2) * 2 * x ^ 1" ∧
      (∀ name, scaledSineDerivative.mentions name = true → scaledSine.mentions name = true) ∧
      scaledSineDerivative.hasNegativeLiteral = false ∧
      ∃ result bound, result.render = "a * cos(x ^ 2) * 2 * x ^ 1" ∧
        (∀ limit, bound ≤ limit →
          (Expr.read limit "a * cos(x ^ 2) * 2 * x ^ 1").outcome = .ok result) ∧
        ∀ again : Settings, again.validate = .ok () → bound ≤ again.maxDepth →
          (∃ second, (differentiate again "a * cos(x ^ 2) * 2 * x ^ 1").outcome = .ok second) ∨
            again.unsupportedPowers = .reject ∧ ∃ power,
              (differentiate again "a * cos(x ^ 2) * 2 * x ^ 1").outcome =
                .error (.plain (.unsupportedPower power)) := by
  have hread : (Expr.read 512 "a * sin(x ^ 2)").outcome = .ok scaledSine := by decide
  have hderivative : (scaledSine.derivative {}).outcome = .ok scaledSineDerivative := by decide
  have hline : (differentiate {} "a * sin(x ^ 2)").outcome =
      .ok "a * cos(x ^ 2) * 2 * x ^ 1" := by decide
  obtain ⟨hlanguage, htexts⟩ := derivative_stays_readable {}
  obtain ⟨hnames, hsigns⟩ := hlanguage _ _ hderivative
  exact ⟨hread, keepsSign_scaledSine, hderivative, hline, hnames, hsigns keepsSign_scaledSine,
    htexts _ _ _ hread keepsSign_scaledSine hline⟩

end SymbolicCalculus
