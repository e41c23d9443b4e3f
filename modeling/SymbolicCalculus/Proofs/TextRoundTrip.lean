/-
Module: SymbolicCalculus.Proofs.TextRoundTrip
Layer: Proofs
Purpose: Reading the text of an expression. The text is read as the expression's own infix tokens,
  so what comes back is the expression regrouped. Only the sign of a negative literal is read as an
  operator. Each such sign leaves one operand too few, which nothing else in the text makes up for,
  so that no expression is read at all.
Trusted boundary: none
Main exports: Token.balance_of_rereadAll, Expr.hasNegativeLiteral, Expr.tokenize_render,
  outcome_read_render_iff
-/
import SymbolicCalculus.Proofs.Conservation
import SymbolicCalculus.Proofs.Lexing
import SymbolicCalculus.Proofs.Regrouping

namespace SymbolicCalculus

namespace Token

/-! ### Signs -/

theorem reread_of_not_isNegative {token : Token} (h : token.isNegative = false) :
    token.reread = .ok [token] := by
  cases token with
  | literal value =>
      have hsign : ¬ value.toInt < 0 := by simpa [isNegative] using h
      rw [reread, if_neg hsign]
  | identifier _ | function _ | operator _ | openParen | closeParen => rfl

/-- Without signs a line is read as the tokens it shows. -/
theorem rereadAll_of_not_isNegative {tokens : List Token}
    (h : ∀ token ∈ tokens, token.isNegative = false) : rereadAll tokens = .ok tokens := by
  induction tokens with
  | nil => rfl
  | cons token rest ih =>
      have htoken := reread_of_not_isNegative (h token List.mem_cons_self)
      have hrest := ih fun token hmem => h token (List.mem_cons_of_mem _ hmem)
      rw [rereadAll_cons, htoken, hrest]
      rfl

/-- A sign costs one operand: the operator needs one that is not there. -/
theorem balance_of_reread {token : Token} {read : List Token} (h : token.reread = .ok read) :
    balance read + [token].countP isNegative = token.gain := by
  cases hsign : token.isNegative with
  | false =>
      rw [reread_of_not_isNegative hsign] at h
      cases h
      simp [hsign]
  | true =>
      cases token with
      | literal value =>
          have hlt : value.toInt < 0 := by simpa [isNegative] using hsign
          rw [reread, if_pos hlt, ofDigits] at h
          split at h
          · cases h
            simp [hsign, gain]
          · cases h
      | identifier _ | function _ | operator _ | openParen | closeParen => cases hsign

/-- The tokens read from a line fall short of those shown by one operand for each sign. -/
theorem balance_of_rereadAll {tokens read : List Token} (h : rereadAll tokens = .ok read) :
    balance read + tokens.countP isNegative = balance tokens := by
  induction tokens generalizing read with
  | nil =>
      cases h
      rfl
  | cons token rest ih =>
      rw [rereadAll_cons] at h
      rcases except_bind_eq_ok_iff.mp h with ⟨first, hfirst, h⟩
      rcases except_bind_eq_ok_iff.mp h with ⟨later, hlater, h⟩
      cases h
      have htoken := balance_of_reread hfirst
      have hrest := ih hlater
      rw [← List.singleton_append, List.countP_append, balance_append, balance_append,
        balance_cons token [], balance_nil, ← htoken, ← hrest]
      push_cast
      omega

end Token

/-- In a well-formed list a parenthesis follows every function. -/
theorem IsInfix.isChain_calls {tokens : List Token} (h : IsInfix tokens) :
    tokens.IsChain (fun before after => ∀ f, before = .function f → after = .openParen) := by
  -- behind the last token of an operand no parenthesis opens, and so it must be no function
  have hlast : ∀ {operand : List Token}, IsInfix operand →
      ∀ last ∈ operand.getLast?, ∀ f, last ≠ .function f := by
    intro operand hoperand last hmem f heq
    have hends := Token.endsOperand_getLast hoperand.alternate last hmem
    rw [heq] at hends
    cases hends
  induction h with
  | literal value => exact List.isChain_singleton _
  | identifier name => exact List.isChain_singleton _
  | operation op hl _ ihl ihr =>
      rw [List.isChain_append, List.isChain_cons]
      exact ⟨ihl, ⟨by simp, ihr⟩, fun last hmem _ _ f heq => absurd heq (hlast hl last hmem f)⟩
  | group h ih =>
      rw [List.isChain_cons, List.isChain_append]
      exact ⟨by simp, ih, List.isChain_singleton _,
        fun last hmem _ _ f heq => absurd heq (hlast h last hmem f)⟩
  | call f h ih =>
      rw [List.isChain_cons_cons, List.isChain_cons, List.isChain_append]
      exact ⟨by simp, by simp, ih, List.isChain_singleton _,
        fun last hmem _ _ f heq => absurd heq (hlast h last hmem f)⟩

/-- In a well-formed list no name runs into the next. -/
theorem IsInfix.isChain_runsInto {tokens : List Token} (h : IsInfix tokens) :
    tokens.IsChain (fun before after => before.runsInto after = false) := by
  refine h.isChain_calls.imp fun before after hcall => ?_
  cases before with
  | function f =>
      rw [hcall f rfl]
      rfl
  | literal _ | identifier _ | operator _ | openParen | closeParen => rfl

namespace Expr

/-- Whether a negative literal occurs anywhere in an expression. -/
def hasNegativeLiteral : Expr → Bool
  | .literal value => value.toInt < 0
  | .identifier _ => false
  | .binary _ left right => left.hasNegativeLiteral || right.hasNegativeLiteral
  | .call _ argument => argument.hasNegativeLiteral

theorem any_parenthesizeIf {p : Token → Bool} (hopen : p .openParen = false)
    (hclose : p .closeParen = false) (needed : Bool) (tokens : List Token) :
    (parenthesizeIf needed tokens).any p = tokens.any p := by
  rw [parenthesizeIf]
  split
  · simp [hopen, hclose]
  · rfl

section Leaves

variable {p : Token → Bool} (hp : ∀ token : Token, token.isValue = false → p token = false)
include hp

/-- What holds of values only is found among the tokens of an operation where it is found among
    those of its operands. -/
theorem any_toInfix_binary (op : BinaryOp) (left right : Expr) :
    (binary op left right).toInfix.any p = (left.toInfix.any p || right.toInfix.any p) := by
  have hopen : p .openParen = false := hp _ rfl
  have hclose : p .closeParen = false := hp _ rfl
  have hop : p (.operator op) = false := hp _ rfl
  rw [toInfix, List.any_append, List.any_cons, any_parenthesizeIf hopen hclose,
    any_parenthesizeIf hopen hclose, hop, Bool.false_or]

theorem any_toInfix_call (f : ElementaryFunction) (argument : Expr) :
    (call f argument).toInfix.any p = argument.toInfix.any p := by
  have hopen : p .openParen = false := hp _ rfl
  have hclose : p .closeParen = false := hp _ rfl
  have hf : p (.function f) = false := hp _ rfl
  simp [toInfix, hopen, hclose, hf]

end Leaves

theorem any_toInfix_isNegative (e : Expr) :
    e.toInfix.any Token.isNegative = e.hasNegativeLiteral := by
  have hp : ∀ token : Token, token.isValue = false → token.isNegative = false := fun _ h =>
    (Token.isNegative_and_isWellNamed_of_isValue h).1
  induction e with
  | literal value => exact Bool.or_false _
  | identifier name => rfl
  | binary op left right ihl ihr => rw [any_toInfix_binary hp, ihl, ihr, hasNegativeLiteral]
  | call f argument ih => rw [any_toInfix_call hp, ih, hasNegativeLiteral]

/-- The identifiers among the tokens of an expression are those it mentions. -/
theorem any_toInfix_identifier (e : Expr) (name : String) :
    e.toInfix.any (· == .identifier name) = e.mentions name := by
  have hp : ∀ token : Token, token.isValue = false → (token == .identifier name) = false := by
    intro token h
    cases token with
    | literal _ | identifier _ => cases h
    | function _ | operator _ | openParen | closeParen => rfl
  induction e with
  | literal value => rfl
  | identifier other =>
      rw [toInfix, List.any_cons, List.any_nil, Bool.or_false, mentions, Bool.eq_iff_iff]
      simp
  | binary op left right ihl ihr => rw [any_toInfix_binary hp, ihl, ihr, mentions]
  | call f argument ih => rw [any_toInfix_call hp, ih, mentions]

variable {e : Expr}

theorem isWellNamed_of_mem_toInfix
    (hnames : ∀ name, e.mentions name = true → Settings.isVariable name = true) :
    ∀ token ∈ e.toInfix, token.isWellNamed = true := by
  intro token htoken
  cases token with
  | identifier name => exact hnames name (by simpa [← any_toInfix_identifier] using htoken)
  | literal _ | function _ | operator _ | openParen | closeParen => rfl

/-- The text of an expression is read as its infix tokens, but for signs. -/
theorem tokenize_render
    (hnames : ∀ name, e.mentions name = true → Settings.isVariable name = true) :
    Token.tokenize e.render = Token.rereadAll e.toInfix :=
  Token.tokenize_infixLine (isWellNamed_of_mem_toInfix hnames)
    e.derives_toInfix.isInfix.isChain_runsInto

/-- A text is read when it has tokens and these are. -/
theorem outcome_read_eq_ok_iff {limit : Nat} {text : String} :
    (read limit text).outcome = .ok e ↔
      ∃ tokens, Token.tokenize text = .ok tokens ∧ (parse limit tokens).outcome = .ok e := by
  rw [read, Logged.outcome_bind_eq_ok_iff]
  simp only [Logged.outcome_mapError, Logged.outcome_lift, except_mapError_eq_ok_iff]

/-- The text of an expression is read exactly when it shows no sign and the regrouped expression is
    within the limit, and then as that. -/
theorem outcome_read_render_eq_ok_iff
    (hnames : ∀ name, e.mentions name = true → Settings.isVariable name = true)
    {limit : Nat} {result : Expr} :
    (read limit e.render).outcome = .ok result ↔
      e.hasNegativeLiteral = false ∧ e.regroup.depth ≤ limit ∧ result = e.regroup := by
  have hderives : Phrase.sum.Derives e.toInfix e.regroup := e.derives_toInfix
  have hunsigned : e.hasNegativeLiteral = false → Token.rereadAll e.toInfix = .ok e.toInfix := by
    intro h
    apply Token.rereadAll_of_not_isNegative
    simpa [← any_toInfix_isNegative] using h
  rw [outcome_read_eq_ok_iff, tokenize_render hnames]
  constructor
  · intro h
    rcases h with ⟨tokens, htokens, hparse⟩
    have hsigns : e.toInfix.countP Token.isNegative = 0 := by
      have hbalance := Token.balance_of_rereadAll htokens
      rw [balance_of_parse hparse, hderives.isInfix.balance_eq_one] at hbalance
      omega
    have hsign : e.hasNegativeLiteral = false := by
      rw [← any_toInfix_isNegative]
      simpa using hsigns
    rw [hunsigned hsign] at htokens
    cases htokens
    exact ⟨hsign, (outcome_parse_eq_ok_iff hderives).mp hparse⟩
  · intro h
    rcases h with ⟨hsign, hdepth, rfl⟩
    exact ⟨e.toInfix, hunsigned hsign, outcome_parse_of_derives hderives hdepth⟩

end Expr

/-- What the text of an expression is read as. It is read exactly when it has no negative literal
    and is within the limit when it is regrouped, and then as the regrouped expression. It comes
    back unchanged exactly when it is also grouped to the left. -/
theorem outcome_read_render_iff {e : Expr}
    (hnames : ∀ name, e.mentions name = true → Settings.isVariable name = true) (limit : Nat) :
    (∀ result, (Expr.read limit e.render).outcome = .ok result ↔
      e.hasNegativeLiteral = false ∧ e.regroup.depth ≤ limit ∧ result = e.regroup) ∧
    ((Expr.read limit e.render).outcome = .ok e ↔
      e.hasNegativeLiteral = false ∧ e.regroup.depth ≤ limit ∧ e.isLeftGrouped = true) := by
  constructor
  · intro result
    exact Expr.outcome_read_render_eq_ok_iff hnames
  · rw [Expr.outcome_read_render_eq_ok_iff hnames, ← Expr.regroup_eq_self_iff, eq_comm (a := e)]

/-- `x + (y - 2)`, which is written without its parentheses. -/
def shiftedSum : Expr :=
  .sum (.identifier "x") (.difference (.identifier "y") (.literal 2))

theorem outcome_read_render_shiftedSum :
    (∀ name, shiftedSum.mentions name = true → Settings.isVariable name = true) ∧
      (Expr.read 3 shiftedSum.render).outcome =
        .ok (.difference (.sum (.identifier "x") (.identifier "y")) (.literal 2)) ∧
      (Expr.read 3 shiftedSum.render).outcome ≠ .ok shiftedSum := by
  have hnames : ∀ name, shiftedSum.mentions name = true → Settings.isVariable name = true := by
    intro name h
    have hname : "x" = name ∨ "y" = name := by
      simpa [shiftedSum, Expr.mentions] using h
    rcases hname with rfl | rfl
    · decide
    · decide
  rcases outcome_read_render_iff hnames 3 with ⟨hread, hsame⟩
  refine ⟨hnames, (hread _).mpr (by decide), ?_⟩
  intro h
  have hgrouped := (hsame.mp h).2.2
  exact absurd hgrouped (by decide)

end SymbolicCalculus
