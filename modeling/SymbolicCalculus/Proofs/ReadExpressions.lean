/-
Module: SymbolicCalculus.Proofs.ReadExpressions
Layer: Proofs
Purpose: What can come out of reading a text, however little its tokens follow the grammar: a tree
  within the limit, whose names are words of letters, and whose literals carry no sign, because a
  minus sign is always read as an operator. The names that can come out are just the variables that
  settings may have. Such a tree is within the limit for differentiation too, and no exponent in it
  is the least integer, so the only fault left is a power that the settings refuse.
Trusted boundary: none
Main exports: Token.isNegative_of_tokenize, Token.isWellNamed_of_tokenize,
  Expr.depth_and_tokens_of_parse, Expr.isVariable_of_read, Expr.depth_and_sign_of_read,
  Expr.derivative_of_read, variable_tfae, outcome_differentiate_eq_ok_iff, differentiate_of_read
-/
import SymbolicCalculus.Proofs.TextRoundTrip
import SymbolicCalculus.Proofs.VisitedNodes
import Mathlib.Tactic.TFAE

namespace SymbolicCalculus

namespace Token

/-! ### The tokens of a text -/

/-- A run of digits is read without a sign, if at all. -/
theorem isNegative_of_ofDigits {digits : List Char} {token : Token}
    (h : ofDigits digits = .ok token) : token.isNegative = false := by
  rw [ofDigits] at h
  split at h
  · rename_i hbound
    cases h
    simp [isNegative, Int64.toInt_ofNat_of_lt hbound]
  · cases h

/-- A single character is read as a symbol and never as a value. -/
theorem isValue_of_ofSymbol? {c : Char} {token : Token} (h : ofSymbol? c = some token) :
    token.isValue = false := by
  unfold ofSymbol? at h
  split at h
  · cases h
    rfl
  · cases h
    rfl
  · obtain ⟨op, -, rfl⟩ := Option.map_eq_some_iff.mp h
    rfl

/-- A token is read from a run of digits, from a run of letters or from a single character. -/
theorem source_of_ofLexeme {position : Nat} {lexeme : List Char} {token : Token}
    (h : ofLexeme position lexeme = .ok (some token)) :
    ∃ c rest, lexeme = c :: rest ∧
      (ofDigits lexeme = .ok token ∨ c.isAlpha = true ∧ token = ofWord (.ofList lexeme) ∨
        ofSymbol? c = some token) := by
  cases lexeme with
  | nil => cases h
  | cons c rest =>
      refine ⟨c, rest, rfl, ?_⟩
      rw [ofLexeme] at h
      split at h
      · cases hdigits : ofDigits (c :: rest) with
        | error fault =>
            rw [hdigits] at h
            cases h
        | ok literal =>
            rw [hdigits] at h
            cases h
            exact .inl rfl
      · split at h
        · rename_i halpha
          cases h
          exact .inr (.inl ⟨halpha, rfl⟩)
        · split at h
          · cases h
          · split at h
            · rename_i symbol hsymbol
              cases h
              exact .inr (.inr hsymbol)
            · cases h

/-- Every token of a text is read from one of its lexemes. -/
theorem exists_lexeme_of_mem {position : Nat} {lexemes : List (List Char)} {tokens : List Token}
    (h : ofLexemes position lexemes = .ok tokens) {token : Token} (hmem : token ∈ tokens) :
    ∃ lexeme ∈ lexemes, ∃ place, ofLexeme place lexeme = .ok (some token) := by
  induction lexemes generalizing position tokens with
  | nil =>
      cases h
      cases hmem
  | cons lexeme rest ih =>
      rw [ofLexemes] at h
      obtain ⟨first, hfirst, h⟩ := except_bind_eq_ok_iff.mp h
      obtain ⟨later, hlater, h⟩ := except_bind_eq_ok_iff.mp h
      cases h
      obtain hmem | hmem := List.mem_append.mp hmem
      · rw [Option.mem_toList.mp hmem] at hfirst
        exact ⟨lexeme, List.mem_cons_self, position, hfirst⟩
      · obtain ⟨other, hother, hplace⟩ := ih hlater hmem
        exact ⟨other, List.mem_cons_of_mem _ hother, hplace⟩

/-- A minus sign in a text is an operator, and never part of a literal. -/
theorem isNegative_of_tokenize {text : String} {tokens : List Token}
    (h : tokenize text = .ok tokens) : ∀ token ∈ tokens, token.isNegative = false := by
  intro token hmem
  obtain ⟨lexeme, -, place, hlexeme⟩ := exists_lexeme_of_mem h hmem
  obtain ⟨c, rest, -, hdigits | ⟨-, rfl⟩ | hsymbol⟩ := source_of_ofLexeme hlexeme
  · exact isNegative_of_ofDigits hdigits
  · unfold ofWord
    split <;> rfl
  · exact (isNegative_and_isWellNamed_of_isValue (isValue_of_ofSymbol? hsymbol)).1

/-- A word of letters is read as a function or as an identifier that can be a variable. -/
theorem isWellNamed_ofWord {word : List Char} (hne : word ≠ [])
    (h : ∀ c ∈ word, c.isAlpha = true) : (ofWord (.ofList word)).isWellNamed = true := by
  unfold ofWord
  split
  · rfl
  · rename_i hname
    exact Settings.isVariable_iff.mpr ⟨by simpa using hne, by simpa using h, hname⟩

/-- An identifier in a text is a word of letters that names no function. -/
theorem isWellNamed_of_tokenize {text : String} {tokens : List Token}
    (h : tokenize text = .ok tokens) : ∀ token ∈ tokens, token.isWellNamed = true := by
  intro token hmem
  obtain ⟨lexeme, hlexeme, place, htoken⟩ := exists_lexeme_of_mem h hmem
  obtain ⟨c, rest, rfl, hdigits | ⟨hc, rfl⟩ | hsymbol⟩ := source_of_ofLexeme htoken
  · rw [ofDigits] at hdigits
    split at hdigits <;> cases hdigits
    rfl
  · have hchain := isChain_of_mem_lexemes hlexeme
    exact isWellNamed_ofWord (List.cons_ne_nil c rest) (isAlpha_of_mem_lexeme hchain hc)
  · exact (isNegative_and_isWellNamed_of_isValue (isValue_of_ofSymbol? hsymbol)).2

/-- A name that can be a variable is read as one identifier. -/
theorem tokenize_of_isVariable {name : String} (h : Settings.isVariable name = true) :
    tokenize name = .ok [.identifier name] := by
  have hnamed : (identifier name).isWellNamed = true := h
  rw [tokenize_eq_scan]
  exact scan_text hnamed 0

end Token

namespace Expr

/-! ### The tree of a text -/

theorem any_toPostfix_isNegative (e : Expr) :
    e.toPostfix.any Token.isNegative = e.hasNegativeLiteral := by
  induction e with
  | literal value => exact Bool.or_false _
  | identifier name => rfl
  | binary op left right ihl ihr =>
      simp [toPostfix, ihl, ihr, hasNegativeLiteral, Token.isNegative]
  | call f argument ih => simp [toPostfix, ih, hasNegativeLiteral, Token.isNegative]

/-- A tree is built within the limit, and of tokens that were there to be read. -/
theorem depth_and_tokens_of_parse {limit : Nat} {tokens : List Token} {e : Expr}
    (h : (parse limit tokens).outcome = .ok e) :
    e.depth ≤ limit ∧ ∀ token ∈ e.toPostfix, token ∈ tokens := by
  rcases outcome_parse_eq_ok_iff_ofInfix.mp h with ⟨hordered, hdepth⟩
  have hperm : e.toPostfix.Perm (Token.withoutParens tokens) := Postfix.perm_of_ofInfix hordered
  exact ⟨hdepth, fun token hmem => List.mem_of_mem_filter (hperm.subset hmem)⟩

theorem mem_toPostfix_of_mentions {e : Expr} {name : String} (h : e.mentions name = true) :
    .identifier name ∈ e.toPostfix := by
  induction e with
  | literal value => cases h
  | identifier other =>
      obtain rfl : other = name := by simpa [mentions] using h
      exact List.mem_singleton_self _
  | binary op left right ihl ihr =>
      obtain hleft | hright := Bool.or_eq_true_iff.mp h
      · simp [toPostfix, ihl hleft]
      · simp [toPostfix, ihr hright]
  | call f argument ih => exact List.mem_append_left _ (ih h)

/-- A name in what is read from a text is an identifier of the text. -/
theorem exists_mem_of_read {limit : Nat} {text : String} {e : Expr} {name : String}
    (h : (read limit text).outcome = .ok e) (hname : e.mentions name = true) :
    ∃ tokens, Token.tokenize text = .ok tokens ∧ .identifier name ∈ tokens := by
  obtain ⟨tokens, htokens, hparse⟩ := outcome_read_eq_ok_iff.mp h
  exact ⟨tokens, htokens, (depth_and_tokens_of_parse hparse).2 _ (mem_toPostfix_of_mentions hname)⟩

/-- What is read from a text mentions names only that a text can give. -/
theorem isVariable_of_read {limit : Nat} {text : String} {e : Expr}
    (h : (read limit text).outcome = .ok e) :
    ∀ name, e.mentions name = true → Settings.isVariable name = true := by
  intro name hname
  obtain ⟨tokens, htokens, hmem⟩ := exists_mem_of_read h hname
  exact Token.isWellNamed_of_tokenize htokens _ hmem

/-- A text that is one identifier is read as that. -/
theorem outcome_read_of_identifier {text name : String} {limit : Nat}
    (h : Token.tokenize text = .ok [.identifier name]) (hlimit : 1 ≤ limit) :
    (read limit text).outcome = .ok (.identifier name) := by
  have hderives : Phrase.sum.Derives [.identifier name] (.identifier name) :=
    (Phrase.Derives.identifier name).of_primary .sum
  exact outcome_read_eq_ok_iff.mpr ⟨_, h, outcome_parse_of_derives hderives hlimit⟩

/-- What is read from a text is within the limit and has no negative literal. -/
theorem depth_and_sign_of_read {limit : Nat} {text : String} {e : Expr}
    (h : (read limit text).outcome = .ok e) :
    e.depth ≤ limit ∧ e.hasNegativeLiteral = false := by
  rcases outcome_read_eq_ok_iff.mp h with ⟨tokens, htokens, hparse⟩
  rcases depth_and_tokens_of_parse hparse with ⟨hdepth, hmem⟩
  refine ⟨hdepth, ?_⟩
  rw [← any_toPostfix_isNegative, List.any_eq_false]
  intro token htoken
  rw [Token.isNegative_of_tokenize htokens token (hmem token htoken)]
  exact Bool.false_ne_true

/-! ### The derivative of what was read -/

variable {settings : Settings}

/-- An exponent that can not be lowered is negative. -/
theorem powerOffence_of_hasNegativeLiteral {base exponent : Expr} {fault : Fault}
    (hsign : (power base exponent).hasNegativeLiteral = false)
    (h : powerOffence settings base exponent = some fault) :
    settings.unsupportedPowers = .reject ∧ fault = .unsupportedPower (.power base exponent) := by
  unfold powerOffence at h
  split at h
  · rename_i n hshape
    rcases PowerShape.of_eq_variableToLiteral_iff.mp hshape with ⟨rfl, rfl⟩
    split at h
    · rename_i hn
      subst hn
      have hleast : (literal Int64.minValue).hasNegativeLiteral = true := rfl
      rw [hasNegativeLiteral, hleast, Bool.or_true] at hsign
      cases hsign
    · cases h
  · cases h
  · cases h
  · split at h
    · rename_i hpolicy
      cases h
      exact ⟨hpolicy, rfl⟩
    · cases h

/-- Within the limit, and without negative literals, only a power can be refused. -/
theorem offence_of_mem_visits {e : Expr} (hdepth : e.depth ≤ settings.maxDepth)
    (hsign : e.hasNegativeLiteral = false) {visit : Visit} (hvisit : visit ∈ e.visits 0)
    {fault : Fault} (h : visit.offence settings = some fault) :
    settings.unsupportedPowers = .reject ∧ ∃ power, fault = .unsupportedPower power := by
  have hlevel : ¬ settings.maxDepth < visit.level := by
    have hvisit := level_add_depth_of_mem_visits hvisit
    have hpos := visit.node.depth_pos
    omega
  have hnode : visit.node.hasNegativeLiteral = false := by
    refine of_mem_visits (motive := fun _ node => node.hasNegativeLiteral = false) ?_ ?_ hsign
      hvisit
    · intro level op f g hnode
      exact Bool.or_eq_false_iff.mp hnode
    · intro level f g hnode
      exact hnode
  rw [Visit.offence, if_neg hlevel] at h
  split at h
  · rename_i base exponent hpower
    rw [hpower] at hnode
    rcases powerOffence_of_hasNegativeLiteral hnode h with ⟨hpolicy, hfault⟩
    exact ⟨hpolicy, _, hfault⟩
  all_goals cases h

/-- What was read from a text has a derivative, unless a power in it is to be refused. -/
theorem derivative_of_read {text : String} {e : Expr}
    (h : (read settings.maxDepth text).outcome = .ok e) :
    (∃ e', (e.derivative settings).outcome = .ok e') ∨
      settings.unsupportedPowers = .reject ∧
        ∃ power, (e.derivative settings).outcome = .error (.unsupportedPower power) := by
  rcases depth_and_sign_of_read h with ⟨hdepth, hsign⟩
  cases houtcome : (e.derivative settings).outcome with
  | ok e' => exact .inl ⟨e', rfl⟩
  | error fault =>
      obtain ⟨visit, hvisit, hoffence⟩ := exists_offence_of_derivative houtcome
      obtain ⟨hpolicy, power, rfl⟩ := offence_of_mem_visits hdepth hsign hvisit hoffence
      exact .inr ⟨hpolicy, power, rfl⟩

end Expr

theorem Settings.validate_eq_ok_iff {settings : Settings} :
    settings.validate = .ok () ↔ isVariable settings.withRespectTo = true := by
  rw [validate]
  split <;> simp_all

/-- The variables that settings may have are just the names that a text can give: as the only
    identifier that it is, as one among its tokens, or in the expression that it is read as. -/
theorem variable_tfae (settings : Settings) :
    [settings.validate = .ok (),
      Token.tokenize settings.withRespectTo = .ok [.identifier settings.withRespectTo],
      ∃ text tokens, Token.tokenize text = .ok tokens ∧
        .identifier settings.withRespectTo ∈ tokens,
      ∃ text limit e, (Expr.read limit text).outcome = .ok e ∧
        e.mentions settings.withRespectTo = true].TFAE := by
  rw [Settings.validate_eq_ok_iff]
  tfae_have 1 → 2 := Token.tokenize_of_isVariable
  tfae_have 2 → 4 := by
    intro h
    refine ⟨_, 1, _, Expr.outcome_read_of_identifier h (Nat.le_refl 1), ?_⟩
    rw [Expr.mentions, beq_self_eq_true]
  tfae_have 4 → 3 := by
    rintro ⟨text, limit, e, hread, hname⟩
    exact ⟨text, Expr.exists_mem_of_read hread hname⟩
  tfae_have 3 → 1 := by
    rintro ⟨text, tokens, htokens, hmem⟩
    exact Token.isWellNamed_of_tokenize htokens _ hmem
  tfae_finish

/-- With usable settings, what differentiating a text comes to is decided by reading the text and
    then by differentiating the tree. -/
theorem outcome_differentiate {settings : Settings} (hvalid : settings.validate = .ok ())
    (text : String) :
    (differentiate settings text).outcome = do
      let e ← (Expr.read settings.maxDepth text).outcome
      let e' ← (e.derivative settings).outcome.mapError .plain
      return e'.render := by
  have hchecked : settings.validate.mapError Failure.plain = .ok () := by
    rw [hvalid]
    rfl
  simp only [differentiate, Logged.outcome_bind, Logged.outcome_mapError, Logged.outcome_lift,
    Logged.outcome_note, Logged.outcome_pure, except_ok_bind, hchecked]
  rfl

/-- Where a text is read and its tree has a derivative, the derivative is written. -/
theorem outcome_differentiate_of_derivative {settings : Settings} {text : String} {e e' : Expr}
    (hvalid : settings.validate = .ok ())
    (hread : (Expr.read settings.maxDepth text).outcome = .ok e)
    (he' : (e.derivative settings).outcome = .ok e') :
    (differentiate settings text).outcome = .ok e'.render := by
  rw [outcome_differentiate hvalid, hread, except_ok_bind, he']
  rfl

/-- A usable text that is not differentiated fails as its tree does. -/
theorem outcome_differentiate_of_fault {settings : Settings} {text : String} {e : Expr}
    {fault : Fault} (hvalid : settings.validate = .ok ())
    (hread : (Expr.read settings.maxDepth text).outcome = .ok e)
    (hfault : (e.derivative settings).outcome = .error fault) :
    (differentiate settings text).outcome = .error (.plain fault) := by
  rw [outcome_differentiate hvalid, hread, except_ok_bind, hfault]
  rfl

/-- A text that is read under usable settings is differentiated or refused for a power in it. -/
theorem differentiated_or_refused_of_read {settings : Settings} {text : String} {e : Expr}
    (hvalid : settings.validate = .ok ())
    (hread : (Expr.read settings.maxDepth text).outcome = .ok e) :
    (∃ line, (differentiate settings text).outcome = .ok line) ∨
      settings.unsupportedPowers = .reject ∧ ∃ power,
        (differentiate settings text).outcome = .error (.plain (.unsupportedPower power)) := by
  obtain ⟨e', he'⟩ | ⟨hpolicy, power, hpower⟩ := Expr.derivative_of_read hread
  · exact .inl ⟨_, outcome_differentiate_of_derivative hvalid hread he'⟩
  · exact .inr ⟨hpolicy, power, outcome_differentiate_of_fault hvalid hread hpower⟩

/-- Unusable settings are refused before anything else is looked at. -/
theorem outcome_differentiate_of_validate {settings : Settings} {fault : Fault}
    (hinvalid : settings.validate = .error fault) (text : String) :
    (differentiate settings text).outcome = .error (.plain fault) := by
  rw [differentiate, Logged.outcome_bind, Logged.outcome_mapError, Logged.outcome_lift, hinvalid]
  rfl

/-- What differentiating a text comes to is the derivative of what was read, and nothing about the
    derivative is checked. -/
theorem outcome_differentiate_eq_ok_iff {settings : Settings} {text line : String} :
    (differentiate settings text).outcome = .ok line ↔
      settings.validate = .ok () ∧ ∃ e e', (Expr.read settings.maxDepth text).outcome = .ok e ∧
        (e.derivative settings).outcome = .ok e' ∧ line = e'.render := by
  cases hvalid : settings.validate with
  | error fault => simp [outcome_differentiate_of_validate hvalid]
  | ok _ =>
      rw [outcome_differentiate hvalid]
      constructor
      · intro h
        obtain ⟨e, hread, h⟩ := except_bind_eq_ok_iff.mp h
        obtain ⟨e', he', h⟩ := except_bind_eq_ok_iff.mp h
        cases h
        exact ⟨rfl, e, e', hread, except_mapError_eq_ok_iff.mp he', rfl⟩
      · rintro ⟨-, e, e', hread, he', rfl⟩
        rw [hread, except_ok_bind, he']
        rfl

theorem Settings.eq_invalidVariable_of_validate {settings : Settings} {fault : Fault}
    (h : settings.validate = .error fault) : fault = .invalidVariable settings.withRespectTo := by
  rw [validate] at h
  split at h
  · cases h
  · cases h
    rfl

/-- A text that is read under usable settings is differentiated, unless a power in it is to be
    refused; differentiation itself never fails for the limit or for a literal. Where no power is
    refused, what fails is the check of the variable or the reading of the text. -/
theorem differentiate_of_read (settings : Settings) (text : String) :
    (settings.validate = .ok () → ∀ e, (Expr.read settings.maxDepth text).outcome = .ok e →
      (settings.unsupportedPowers = .zero →
        ∃ line, (differentiate settings text).outcome = .ok line) ∧
      (settings.unsupportedPowers = .reject →
        (∃ line, (differentiate settings text).outcome = .ok line) ∨
          ∃ power,
            (differentiate settings text).outcome = .error (.plain (.unsupportedPower power))) ∧
      ∀ fault, (e.derivative settings).outcome = .error fault →
        ∃ power, fault = .unsupportedPower power) ∧
    (settings.unsupportedPowers = .zero →
      ∀ failure, (differentiate settings text).outcome = .error failure →
        failure = .plain (.invalidVariable settings.withRespectTo) ∨
          (Expr.read settings.maxDepth text).outcome = .error failure) := by
  constructor
  · intro hvalid e hread
    rcases Expr.derivative_of_read hread with ⟨e', he'⟩ | ⟨hpolicy, power, hpower⟩
    · have hline := outcome_differentiate_of_derivative hvalid hread he'
      refine ⟨fun _ => ⟨_, hline⟩, fun _ => .inl ⟨_, hline⟩, fun fault hfault => ?_⟩
      rw [he'] at hfault
      cases hfault
    · have hfailure := outcome_differentiate_of_fault hvalid hread hpower
      refine ⟨fun hzero => ?_, fun _ => .inr ⟨power, hfailure⟩, fun fault hfault => ?_⟩
      · rw [hpolicy] at hzero
        cases hzero
      · rw [hpower] at hfault
        cases hfault
        exact ⟨power, rfl⟩
  · intro hzero failure hfailure
    cases hvalid : settings.validate with
    | error fault =>
        rw [outcome_differentiate_of_validate hvalid] at hfailure
        cases hfailure
        exact .inl (congrArg Failure.plain (Settings.eq_invalidVariable_of_validate hvalid))
    | ok _ =>
        right
        cases hread : (Expr.read settings.maxDepth text).outcome with
        | error fault =>
            rw [outcome_differentiate hvalid, hread, except_error_bind] at hfailure
            cases hfailure
            rfl
        | ok e =>
            rcases Expr.derivative_of_read hread with ⟨e', he'⟩ | ⟨hreject, -⟩
            · rw [outcome_differentiate_of_derivative hvalid hread he'] at hfailure
              cases hfailure
            · rw [hzero] at hreject
              cases hreject

/-- Settings that refuse powers without a rule, and allow just the depth of `x + ln(x ^ x)`. -/
def strictSettings : Settings :=
  { unsupportedPowers := .reject, maxDepth := 4 }

theorem differentiate_of_read_logarithm :
    strictSettings.validate = .ok () ∧
      (Expr.read strictSettings.maxDepth "x + ln(x ^ x)").outcome =
        .ok (.sum (.identifier "x") (.call .ln (.power (.identifier "x") (.identifier "x")))) ∧
      ((∃ line, (differentiate strictSettings "x + ln(x ^ x)").outcome = .ok line) ∨
        ∃ power, (differentiate strictSettings "x + ln(x ^ x)").outcome =
          .error (.plain (.unsupportedPower power))) ∧
      (∃ line, (differentiate { maxDepth := 4 } "x + ln(x ^ x)").outcome = .ok line) ∧
      (differentiate {} "x +").outcome =
        .error (.parsing "x +" (.missingOperand (.operator .add))) ∧
      (Expr.read 512 "x +").outcome =
        .error (.parsing "x +" (.missingOperand (.operator .add))) := by
  have hread : (Expr.read 4 "x + ln(x ^ x)").outcome =
      .ok (.sum (.identifier "x") (.call .ln (.power (.identifier "x") (.identifier "x")))) := by
    decide
  have hfailure : (differentiate {} "x +").outcome =
      .error (.parsing "x +" (.missingOperand (.operator .add))) := by decide
  rcases (differentiate_of_read strictSettings "x + ln(x ^ x)").1 rfl _ hread with
    ⟨-, hreject, -⟩
  rcases (differentiate_of_read { maxDepth := 4 } "x + ln(x ^ x)").1 rfl _ hread with ⟨hzero, -⟩
  rcases (differentiate_of_read {} "x +").2 rfl _ hfailure with hinvalid | hunread
  · cases hinvalid
  · exact ⟨rfl, hread, hreject rfl, hzero rfl, hfailure, hunread⟩

end SymbolicCalculus
