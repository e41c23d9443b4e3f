/-
Module: SymbolicCalculus.Proofs.LineDecoding
Layer: Proofs
Purpose: A line that shows infix tokens shows no others. Reading the line does not say so, because
  the sign of a negative literal is read as an operator; the line itself does, because an operator
  has a blank behind it and a sign has a digit. Every token but a parenthesis is one character with
  letters or digits behind it, and what follows it on the line begins with neither, so the first
  token and the rest of the line can be told apart.
Trusted boundary: none
Main exports: Token.text_injective, Token.text_append_inj, Token.IsLegible,
  Token.eq_of_infixLine_eq
-/
import SymbolicCalculus.Proofs.TextRoundTrip

namespace SymbolicCalculus.Token

/-! ### The text of one token -/

/-- What a literal with a sign is reread as is no single token. -/
theorem reread_ne_singleton {token : Token} (h : token.isNegative = true) (other : Token) :
    token.reread ≠ .ok [other] := by
  cases token with
  | literal value =>
      have hsign : value.toInt < 0 := by simpa [isNegative] using h
      rw [reread, if_pos hsign]
      cases ofDigits (Nat.toDigits 10 value.toInt.natAbs) with
      | error fault =>
          intro heq
          cases heq
      | ok digits =>
          intro heq
          cases heq
  | identifier _ | function _ | operator _ | openParen | closeParen => cases h

/-- Two literals with a sign have the same text only if they are the same. -/
theorem eq_of_isNegative_of_text_eq {token other : Token} (htoken : token.isNegative = true)
    (hother : other.isNegative = true) (h : token.text = other.text) : token = other := by
  cases token with
  | identifier _ | function _ | operator _ | openParen | closeParen => cases htoken
  | literal value =>
      cases other with
      | identifier _ | function _ | operator _ | openParen | closeParen => cases hother
      | literal value' =>
          have hsign : value.toInt < 0 := by simpa [isNegative] using htoken
          have hsign' : value'.toInt < 0 := by simpa [isNegative] using hother
          have htext := congrArg String.toList h
          rw [toList_text_literal, toList_text_literal, if_pos hsign, if_pos hsign'] at htext
          have hdigits := (List.cons.inj htext).2
          have habs : value.toInt.natAbs = value'.toInt.natAbs := by
            calc
              _ = Nat.ofDigitChars 10 (Nat.toDigits 10 value.toInt.natAbs) 0 :=
                Nat.ofDigitChars_ten_toDigits.symm
              _ = Nat.ofDigitChars 10 (Nat.toDigits 10 value'.toInt.natAbs) 0 := by rw [hdigits]
              _ = value'.toInt.natAbs := Nat.ofDigitChars_ten_toDigits
          have hvalue : value.toInt = value'.toInt := by omega
          rw [Int64.toInt_inj.mp hvalue]

/-- Tokens that a text can give have different texts. -/
theorem text_injective {token other : Token} (htoken : token.isWellNamed = true)
    (hother : other.isWellNamed = true) (h : token.text = other.text) : token = other := by
  have hreread : token.reread = other.reread := by
    rw [← scan_text htoken 0, ← scan_text hother 0, h]
  cases hsign : token.isNegative with
  | false =>
      cases hsign' : other.isNegative with
      | false =>
          rw [reread_of_not_isNegative hsign, reread_of_not_isNegative hsign'] at hreread
          cases hreread
          rfl
      | true =>
          rw [reread_of_not_isNegative hsign] at hreread
          exact absurd hreread.symm (reread_ne_singleton hsign' token)
  | true =>
      cases hsign' : other.isNegative with
      | false =>
          rw [reread_of_not_isNegative hsign'] at hreread
          exact absurd hreread (reread_ne_singleton hsign other)
      | true => exact eq_of_isNegative_of_text_eq hsign hsign' h

/-- A word has a first character, which is neither a parenthesis nor a blank. -/
theorem exists_cons_of_isAlphanum {text : List Char} (hne : text ≠ [])
    (h : ∀ c ∈ text, c.isAlphanum = true) :
    ∃ c word, text = c :: word ∧ (∀ x ∈ word, x.isAlphanum = true) ∧ c ∉ ['(', ')', ' '] := by
  cases text with
  | nil => exact absurd rfl hne
  | cons c word =>
      have hc := h c List.mem_cons_self
      refine ⟨c, word, rfl, fun x hx => h x (List.mem_cons_of_mem c hx), fun hmem => ?_⟩
      have hno : ∀ x ∈ ['(', ')', ' '], x.isAlphanum = false := by simp
      rw [hno c hmem] at hc
      cases hc

/-- A token that is no parenthesis is one character and then letters or digits. -/
theorem exists_text_eq {token : Token} (hnamed : token.isWellNamed = true)
    (hparen : token.isParenthesis = false) :
    ∃ c word, token.text.toList = c :: word ∧ (∀ x ∈ word, x.isAlphanum = true) ∧
      c ∉ ['(', ')', ' '] := by
  have hletter : ∀ {c : Char}, c.isAlpha = true → c.isAlphanum = true := fun h => by
    rw [Char.isAlphanum, h, Bool.true_or]
  have hdigit : ∀ {n : Nat}, ∀ c ∈ Nat.toDigits 10 n, c.isAlphanum = true := fun c hc => by
    rw [Char.isAlphanum, Nat.isDigit_of_mem_toDigits (by decide) (by decide) hc, Bool.or_true]
  cases token with
  | literal value =>
      rw [toList_text_literal]
      split
      · exact ⟨'-', _, rfl, hdigit, by decide⟩
      · exact exists_cons_of_isAlphanum Nat.toDigits_ne_nil hdigit
  | identifier name =>
      obtain ⟨hne, halpha, -⟩ := Settings.isVariable_iff.mp hnamed
      exact exists_cons_of_isAlphanum hne fun c hc => hletter (halpha c hc)
  | function f =>
      exact exists_cons_of_isAlphanum f.name_ne_nil fun c hc => hletter (f.isAlpha_of_mem_name hc)
  | operator op =>
      refine ⟨op.symbol, [], ?_, by simp, ?_⟩
      · cases op <;> rfl
      · cases op <;> decide
  | openParen | closeParen => cases hparen

theorem isParenthesis_iff {token : Token} :
    token.isParenthesis = true ↔ token = .openParen ∨ token = .closeParen := by
  cases token with
  | literal _ | identifier _ | function _ | operator _ | openParen | closeParen =>
      simp [isParenthesis]

/-! ### The first token of a line -/

/-- A word ends where no letter or digit follows, so it can be told from what does. -/
theorem word_append_inj {p : Char → Bool} {word word' rest rest' : List Char}
    (hword : ∀ c ∈ word, p c = true) (hword' : ∀ c ∈ word', p c = true)
    (hrest : ∀ c ∈ rest.head?, p c = false) (hrest' : ∀ c ∈ rest'.head?, p c = false)
    (h : word ++ rest = word' ++ rest') : word = word' ∧ rest = rest' := by
  have hstop : ∀ {text : List Char}, (∀ c ∈ text.head?, p c = false) → text.takeWhile p = [] := by
    intro text htext
    cases text with
    | nil => rfl
    | cons c _ => simp [htext c rfl]
  have htake := congrArg (List.takeWhile p) h
  rw [List.takeWhile_append_of_pos hword, List.takeWhile_append_of_pos hword', hstop hrest,
    hstop hrest', List.append_nil, List.append_nil] at htake
  subst htake
  exact ⟨rfl, List.append_cancel_left h⟩

/-- Only a parenthesis begins with one. -/
theorem text_append_ne {token other : Token} (hnamed : token.isWellNamed = true)
    (hparen : token.isParenthesis = false) (hother : other.isParenthesis = true)
    (rest rest' : List Char) : token.text.toList ++ rest ≠ other.text.toList ++ rest' := by
  obtain ⟨c, word, htext, -, hc⟩ := exists_text_eq hnamed hparen
  intro h
  rw [htext] at h
  rcases isParenthesis_iff.mp hother with rfl | rfl
  · have heq : c = '(' := (List.cons.inj h).1
    exact hc (by simp [heq])
  · have heq : c = ')' := (List.cons.inj h).1
    exact hc (by simp [heq])

/-- The first token of a text can be told from what follows it, if that begins with no letter or
    digit. A parenthesis can be told from anything. -/
theorem text_append_inj {token other : Token} {rest rest' : List Char}
    (htoken : token.isWellNamed = true) (hother : other.isWellNamed = true)
    (hrest : token.isParenthesis = false → ∀ c ∈ rest.head?, c.isAlphanum = false)
    (hrest' : other.isParenthesis = false → ∀ c ∈ rest'.head?, c.isAlphanum = false)
    (h : token.text.toList ++ rest = other.text.toList ++ rest') :
    token = other ∧ rest = rest' := by
  cases hparen : token.isParenthesis with
  | false =>
      cases hparen' : other.isParenthesis with
      | false =>
          obtain ⟨c, word, htext, hword, -⟩ := exists_text_eq htoken hparen
          obtain ⟨c', word', htext', hword', -⟩ := exists_text_eq hother hparen'
          rw [htext, htext', List.cons_append, List.cons_append] at h
          obtain ⟨rfl, hwords⟩ := List.cons.inj h
          obtain ⟨rfl, hrests⟩ :=
            word_append_inj hword hword' (hrest hparen) (hrest' hparen') hwords
          exact ⟨text_injective htoken hother (String.toList_inj.mp (htext.trans htext'.symm)),
            hrests⟩
      | true => exact absurd h (text_append_ne htoken hparen hparen' rest rest')
  | true =>
      cases hparen' : other.isParenthesis with
      | false => exact absurd h.symm (text_append_ne hother hparen' hparen rest' rest)
      | true =>
          rcases isParenthesis_iff.mp hparen with rfl | rfl
          · rcases isParenthesis_iff.mp hparen' with rfl | rfl
            · exact ⟨rfl, (List.cons.inj h).2⟩
            · exact absurd (List.cons.inj h).1 (by decide)
          · rcases isParenthesis_iff.mp hparen' with rfl | rfl
            · exact absurd (List.cons.inj h).1 (by decide)
            · exact ⟨rfl, (List.cons.inj h).2⟩

/-! ### Whole lines -/

/-- Tokens that a line shows so that they can be told apart: identifiers have names that a text can
    give, and every function has its parenthesis. -/
structure IsLegible (tokens : List Token) : Prop where
  named : ∀ token ∈ tokens, token.isWellNamed = true
  called : tokens.IsChain (fun before after => ∀ f, before = .function f → after = .openParen)

theorem IsLegible.tail {token : Token} {rest : List Token} (h : IsLegible (token :: rest)) :
    IsLegible rest where
  named other hmem := h.named other (List.mem_cons_of_mem token hmem)
  called := h.called.tail

/-- A line that shows a token is not empty. -/
theorem IsLegible.infixPieces_ne_nil {token : Token} {rest : List Token}
    (h : IsLegible (token :: rest)) :
    (infixPieces (token :: rest)).flatMap String.toList ≠ [] := by
  obtain ⟨tail, htail⟩ := exists_infixPieces_eq token rest
  rw [htail]
  exact List.append_ne_nil_of_left_ne_nil (text_ne_nil (h.named token List.mem_cons_self)) tail

/-- A line without the blank that it may begin with. -/
def skipBlank : List Char → List Char
  | ' ' :: rest => rest
  | line => line

/-- No token's text begins with a blank. -/
theorem skipBlank_text_append {token : Token} (hnamed : token.isWellNamed = true)
    (rest : List Char) : skipBlank (token.text.toList ++ rest) = token.text.toList ++ rest := by
  have hhead : ∀ {c : Char} {line : List Char}, c ≠ ' ' → skipBlank (c :: line) = c :: line := by
    intro c line hc
    rw [skipBlank.eq_def]
    split
    · rename_i heq
      exact absurd (List.cons.inj heq).1 hc
    · rfl
  cases hparen : token.isParenthesis with
  | false =>
      obtain ⟨c, word, htext, -, hc⟩ := exists_text_eq hnamed hparen
      rw [htext]
      exact hhead (by simp at hc; exact hc.2.2)
  | true =>
      rcases isParenthesis_iff.mp hparen with rfl | rfl
      · rfl
      · rfl

/-- Two tokens with nothing between them have a parenthesis, if every function has its own. -/
theorem isParenthesis_of_separator {token next : Token}
    (hcalled : ∀ f, token = .function f → next = .openParen) (hparen : token.isParenthesis = false)
    (h : separator token next = "") : next.isParenthesis = true := by
  rcases opensGroup_or_of_separator h with hopens | rfl
  · cases token with
    | function f =>
        rw [hcalled f rfl]
        rfl
    | openParen => cases hparen
    | literal _ | identifier _ | operator _ | closeParen => cases hopens
  · rfl

/-- What follows a token on a line begins with no letter or digit, unless the token is a
    parenthesis, and behind a blank it is the line of the other tokens. -/
theorem exists_infixPieces_cons {token : Token} {rest : List Token}
    (h : IsLegible (token :: rest)) :
    ∃ tail, (infixPieces (token :: rest)).flatMap String.toList = token.text.toList ++ tail ∧
      (token.isParenthesis = false → ∀ c ∈ tail.head?, c.isAlphanum = false) ∧
      skipBlank tail = (infixPieces rest).flatMap String.toList := by
  cases rest with
  | nil => exact ⟨[], by simp [infixPieces], by simp, rfl⟩
  | cons next rest =>
      obtain ⟨tail, htail⟩ := exists_infixPieces_eq next rest
      have hnext : next.isWellNamed = true := h.named next (by simp)
      have hline : (infixPieces (token :: next :: rest)).flatMap String.toList =
          token.text.toList ++ ((separator token next).toList ++
            (infixPieces (next :: rest)).flatMap String.toList) := by
        rw [infixPieces, List.flatMap_cons, List.flatMap_cons]
      rcases separator_eq token next with hseparator | hseparator
      · rw [hseparator] at hline
        refine ⟨_, hline, fun hparen => ?_, ?_⟩
        · have hcalled := (List.isChain_cons_cons.mp h.called).1
          rw [String.toList_empty, List.nil_append, htail]
          rcases isParenthesis_iff.mp (isParenthesis_of_separator hcalled hparen hseparator)
            with rfl | rfl
          · intro c hc
            cases hc
            rfl
          · intro c hc
            cases hc
            rfl
        · rw [String.toList_empty, List.nil_append, htail, skipBlank_text_append hnext]
      · rw [hseparator] at hline
        refine ⟨_, hline, fun _ c hc => ?_, rfl⟩
        cases hc
        rfl

/-- A line that shows tokens so that they can be told apart shows no others. -/
theorem eq_of_infixPieces_eq {tokens others : List Token} (htokens : IsLegible tokens)
    (hothers : IsLegible others)
    (h : (infixPieces tokens).flatMap String.toList =
      (infixPieces others).flatMap String.toList) : tokens = others := by
  induction tokens generalizing others with
  | nil =>
      cases others with
      | nil => rfl
      | cons other rest' => exact absurd h.symm hothers.infixPieces_ne_nil
  | cons token rest ih =>
      cases others with
      | nil => exact absurd h htokens.infixPieces_ne_nil
      | cons other rest' =>
          obtain ⟨tail, htail, hhead, hrest⟩ := exists_infixPieces_cons htokens
          obtain ⟨tail', htail', hhead', hrest'⟩ := exists_infixPieces_cons hothers
          rw [htail, htail'] at h
          obtain ⟨rfl, rfl⟩ := text_append_inj (htokens.named token List.mem_cons_self)
            (hothers.named other List.mem_cons_self) hhead hhead' h
          rw [ih htokens.tail hothers.tail (hrest.symm.trans hrest')]

/-- Two lists of tokens that can be told apart are shown by different lines. -/
theorem eq_of_infixLine_eq {tokens others : List Token} (htokens : IsLegible tokens)
    (hothers : IsLegible others) (h : infixLine tokens = infixLine others) : tokens = others := by
  apply eq_of_infixPieces_eq htokens hothers
  rw [← String.toList_join, ← String.toList_join]
  exact congrArg String.toList h

end SymbolicCalculus.Token
