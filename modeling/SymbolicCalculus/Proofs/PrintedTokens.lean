/-
Module: SymbolicCalculus.Proofs.PrintedTokens
Layer: Proofs
Purpose: Which lists of tokens come back from the lines that show them. A text gives literals
  without a sign and identifiers that are words, so no list with other tokens comes back from any
  line. A line of postfix tokens has a blank between any two, and all other lists come back from it.
  On a line of infix tokens the name of a function stands right before the next token. If that is a
  name too, the two are read as one longer word, which is never the function. Where tokens come from
  a text these conditions hold, so its postfix line holds all that reading the text builds on.
Trusted boundary: human-reviewed spec
Main exports: Token.IsReadable, Token.scan_postfixLine, Token.isChain_of_scan_infixPieces,
  Token.tokenize_infixLine_eq_self_iff, Token.tokenize_postfixLine_eq_self_iff,
  infixLine_is_read_back_iff, postfixLine_keeps_expression
-/
import SymbolicCalculus.Proofs.ReadExpressions

namespace SymbolicCalculus

namespace Token

/-- Tokens that a text can give: no literal has a sign, and every identifier is a word of letters
    that names no function. -/
structure IsReadable (tokens : List Token) : Prop where
  unsigned : ∀ value, .literal value ∈ tokens → 0 ≤ value.toInt
  named : ∀ name, .identifier name ∈ tokens → Settings.isVariable name = true

variable {token next : Token} {tokens rest later : List Token} {position : Nat}

namespace IsReadable

theorem isNegative (h : IsReadable tokens) : ∀ token ∈ tokens, token.isNegative = false := by
  intro token hmem
  cases token with
  | literal value => exact decide_eq_false (Int.not_lt.mpr (h.unsigned value hmem))
  | identifier _ | function _ | operator _ | openParen | closeParen => rfl

theorem isWellNamed (h : IsReadable tokens) : ∀ token ∈ tokens, token.isWellNamed = true := by
  intro token hmem
  cases token with
  | identifier name => exact h.named name hmem
  | literal _ | function _ | operator _ | openParen | closeParen => rfl

theorem of_cons (h : IsReadable (token :: rest)) : IsReadable rest where
  unsigned value hmem := h.unsigned value (List.mem_cons_of_mem token hmem)
  named name hmem := h.named name (List.mem_cons_of_mem token hmem)

/-- Only such tokens are read. -/
theorem of_tokenize {text : String} (h : tokenize text = .ok tokens) : IsReadable tokens where
  unsigned value hmem := by
    have hsign := isNegative_of_tokenize h _ hmem
    exact Int.not_lt.mp (of_decide_eq_false hsign)
  named name hmem := isWellNamed_of_tokenize h _ hmem

/-- Without signs the tokens of a line are read as they are. -/
theorem rereadAll_eq (h : IsReadable tokens) : rereadAll tokens = .ok tokens :=
  rereadAll_of_not_isNegative h.isNegative

end IsReadable

/-! ### Lines of postfix tokens -/

/-- A line of postfix tokens is read token by token. -/
theorem scan_postfixLine (hnamed : ∀ token ∈ tokens, token.isWellNamed = true) (position : Nat) :
    scan position (postfixLine tokens).toList = rereadAll tokens := by
  induction tokens generalizing position with
  | nil => rfl
  | cons token rest ih =>
      have htoken := hnamed token List.mem_cons_self
      have hrest := fun position =>
        ih (fun token h => hnamed token (List.mem_cons_of_mem _ h)) position
      cases rest with
      | nil =>
          rw [postfixLine, List.map_singleton, String.intercalate_singleton, scan_text htoken,
            rereadAll_cons, rereadAll_nil]
          simp only [except_ok_bind, List.append_nil, bind_pure]
      | cons next rest =>
          have hline : (postfixLine (token :: next :: rest)).toList =
              token.text.toList ++ ' ' :: (postfixLine (next :: rest)).toList := by
            rw [postfixLine, List.map_cons, List.map_cons, String.intercalate_cons_cons,
              String.toList_append, String.toList_append, List.append_assoc]
            rfl
          rw [hline, scan_text_blank htoken, rereadAll_cons]
          simp only [hrest]

/-! ### Names that run into each other -/

/-- The text of a word is the word. -/
theorem text_ofWord (word : String) : (ofWord word).text = word := by
  unfold ofWord
  split
  · rename_i f hname
    exact ElementaryFunction.ofName?_eq_some_iff.mp hname
  · rfl

/-- Only words run into each other, and nothing stands between them. -/
theorem isAlpha_of_runsInto (h : token.runsInto next = true) (hnext : next.isWellNamed = true) :
    (∀ c ∈ token.text.toList, c.isAlpha = true) ∧ (∀ c ∈ next.text.toList, c.isAlpha = true) ∧
      separator token next = "" := by
  cases token with
  | literal _ | identifier _ | operator _ | openParen | closeParen => cases h
  | function f =>
      refine ⟨fun c hc => f.isAlpha_of_mem_name hc, ?_, rfl⟩
      cases next with
      | literal _ | operator _ | openParen | closeParen => cases h
      | identifier name => exact (Settings.isVariable_iff.mp hnext).2.1
      | function g => exact fun c hc => g.isAlpha_of_mem_name hc

/-- A function whose name runs into the next is not read as that function: what is read instead is a
    longer word. -/
theorem scan_infixPieces_ne (hruns : token.runsInto next = true)
    (htoken : token.isWellNamed = true) (hnext : next.isWellNamed = true) :
    scan position ((infixPieces (token :: next :: rest)).flatMap String.toList) ≠
      .ok (token :: later) := by
  obtain ⟨hletters, hnextLetters, hseparator⟩ := isAlpha_of_runsInto hruns hnext
  obtain ⟨tail, htail⟩ := exists_infixPieces_eq next rest
  have hline : (infixPieces (token :: next :: rest)).flatMap String.toList =
      token.text.toList ++ (next.text.toList ++ tail) := by
    rw [infixPieces, List.flatMap_cons, List.flatMap_cons, hseparator, String.toList_empty,
      List.nil_append, htail]
  have hword : (token.text.toList ++ (next.text.toList ++ tail)).takeWhile Char.isAlpha =
      token.text.toList ++ (next.text.toList ++ tail.takeWhile Char.isAlpha) := by
    rw [List.takeWhile_append_of_pos hletters, List.takeWhile_append_of_pos hnextLetters]
  have hhead : ∃ c ∈ (token.text.toList ++ (next.text.toList ++ tail)).head?, c.isAlpha = true := by
    have hne := text_ne_nil htoken
    refine ⟨_, ?_, hletters _ (List.head_mem hne)⟩
    rw [List.head?_append_of_ne_nil _ hne]
    exact List.head?_eq_some_head hne
  intro h
  rw [hline, scan_of_head_isAlpha hhead, hword] at h
  obtain ⟨others, -, hread⟩ := except_bind_eq_ok_iff.mp h
  have hfirst := (List.cons.inj (Except.ok.inj hread)).1
  have htext := congrArg (fun token => token.text.toList) hfirst
  rw [text_ofWord, String.toList_ofList, List.append_right_eq_self] at htext
  exact text_ne_nil hnext (List.append_eq_nil_iff.mp htext).1

/-- Where a line of infix tokens is read as just those tokens, no name runs into the next. -/
theorem isChain_of_scan_infixPieces (hreadable : IsReadable tokens)
    (h : scan position ((infixPieces tokens).flatMap String.toList) = .ok tokens) :
    tokens.IsChain (fun before after => before.runsInto after = false) := by
  induction tokens generalizing position with
  | nil => exact List.isChain_nil
  | cons token rest ih =>
      have htoken := hreadable.isWellNamed token List.mem_cons_self
      have hsign := hreadable.isNegative token List.mem_cons_self
      cases rest with
      | nil => exact List.isChain_singleton token
      | cons next rest =>
          have hnext := hreadable.isWellNamed next (by simp)
          have hruns : token.runsInto next = false := by
            rw [← Bool.not_eq_true]
            exact fun hruns => scan_infixPieces_ne hruns htoken hnext h
          rw [scan_infixPieces_cons rest htoken hnext hruns, reread_of_not_isNegative hsign,
            except_ok_bind] at h
          obtain ⟨later, hlater, hread⟩ := except_bind_eq_ok_iff.mp h
          cases hread
          exact List.isChain_cons_cons.mpr ⟨hruns, ih hreadable.of_cons hlater⟩

/-! ### The lists that come back -/

theorem tokenize_infixLine_eq_self_iff :
    tokenize (infixLine tokens) = .ok tokens ↔
      IsReadable tokens ∧ tokens.IsChain (fun before after => before.runsInto after = false) := by
  constructor
  · intro h
    have hreadable := IsReadable.of_tokenize h
    rw [tokenize_eq_scan, infixLine, String.toList_join] at h
    exact ⟨hreadable, isChain_of_scan_infixPieces hreadable h⟩
  · rintro ⟨hreadable, hruns⟩
    rw [tokenize_infixLine hreadable.isWellNamed hruns, hreadable.rereadAll_eq]

theorem tokenize_postfixLine_eq_self_iff :
    tokenize (postfixLine tokens) = .ok tokens ↔ IsReadable tokens := by
  constructor
  · exact IsReadable.of_tokenize
  · intro hreadable
    rw [tokenize_eq_scan, scan_postfixLine hreadable.isWellNamed, hreadable.rereadAll_eq]

end Token

namespace Expr

/-- The tokens of an expression can be read when its leaves can. -/
theorem isReadable_toInfix_iff {e : Expr} :
    Token.IsReadable e.toInfix ↔ e.hasNegativeLiteral = false ∧
      ∀ name, e.mentions name = true → Settings.isVariable name = true := by
  constructor
  · intro h
    refine ⟨?_, fun name hname => h.named name ?_⟩
    · rw [← any_toInfix_isNegative, List.any_eq_false]
      intro token hmem
      rw [h.isNegative token hmem]
      exact Bool.false_ne_true
    · simpa [← any_toInfix_identifier] using hname
  · rintro ⟨hsign, hnames⟩
    rw [← any_toInfix_isNegative, List.any_eq_false] at hsign
    exact {
      unsigned := fun value hmem => by simpa [Token.isNegative] using hsign _ hmem
      named := fun name hmem => isWellNamed_of_mem_toInfix hnames _ hmem }

end Expr

/-- In the postfix order of a text there are only tokens that a text can give. -/
theorem Postfix.isReadable_of_read {limit : Nat} {text : String} {tokens : List Token}
    (h : (Postfix.read limit text).outcome = .ok tokens) : Token.IsReadable tokens := by
  rw [Postfix.outcome_read] at h
  obtain ⟨raw, hraw, hordered⟩ := except_bind_eq_ok_iff.mp h
  have hreadable := Token.IsReadable.of_tokenize hraw
  have hmem : ∀ token ∈ tokens, token ∈ raw := fun token htoken =>
    List.mem_of_mem_filter ((Postfix.perm_of_ofInfix hordered).subset htoken)
  exact ⟨fun value h => hreadable.unsigned value (hmem _ h),
    fun name h => hreadable.named name (hmem _ h)⟩

/-- A list of tokens is read back from the line that shows it as infix exactly when its literals
    have no sign, its identifiers are words that name no function, and no function has a name right
    behind it. In the tokens of an expression none has, whatever its leaves are, so the line of an
    expression is read as its tokens exactly when its leaves can be read. -/
theorem infixLine_is_read_back_iff :
    (∀ tokens, Token.tokenize (Token.infixLine tokens) = .ok tokens ↔
      Token.IsReadable tokens ∧
        tokens.IsChain (fun before after => before.runsInto after = false)) ∧
    ∀ e : Expr, e.toInfix.IsChain (fun before after => before.runsInto after = false) ∧
      (Token.tokenize e.render = .ok e.toInfix ↔
        e.hasNegativeLiteral = false ∧
          ∀ name, e.mentions name = true → Settings.isVariable name = true) := by
  refine ⟨fun tokens => Token.tokenize_infixLine_eq_self_iff, fun e => ?_⟩
  have hruns := e.derives_toInfix.isInfix.isChain_runsInto
  refine ⟨hruns, ?_⟩
  rw [Expr.render, Token.tokenize_infixLine_eq_self_iff, and_iff_left hruns,
    Expr.isReadable_toInfix_iff]

/-- The name of a function runs into the name behind it. -/
example : Token.tokenize (Token.infixLine [.function .arcsin, .identifier "x"]) =
    .ok [.identifier "arcsinx"] :=
  rfl

/-- A list of tokens is read back from the line that shows it as postfix exactly when its literals
    have no sign and its identifiers are words that name no function. So the postfix order of a text
    is read back from its line, and the tree that is built of it, or the fault in it, is what
    reading the text comes to. -/
theorem postfixLine_keeps_expression :
    (∀ tokens, Token.tokenize (Token.postfixLine tokens) = .ok tokens ↔
      Token.IsReadable tokens) ∧
    ∀ limit text tokens, (Postfix.read limit text).outcome = .ok tokens →
      Token.tokenize (Token.postfixLine tokens) = .ok tokens ∧
      Expr.ofPostfix limit tokens = (Expr.read limit text).outcome.mapError Failure.fault := by
  refine ⟨fun tokens => Token.tokenize_postfixLine_eq_self_iff, fun limit text tokens h => ⟨?_, ?_⟩⟩
  · exact Token.tokenize_postfixLine_eq_self_iff.mpr (Postfix.isReadable_of_read h)
  · rw [Expr.mapError_fault_outcome_read, h, except_ok_bind]

/-- `y sin(cos(x))`, in whose postfix order two functions stand side by side, and from which no
    expression is built. -/
theorem postfixLine_keeps_unconnected :
    (Postfix.read 3 "y sin(cos(x))").outcome =
        .ok [.identifier "y", .identifier "x", .function .cos, .function .sin] ∧
      Token.tokenize "y x cos sin" =
        .ok [.identifier "y", .identifier "x", .function .cos, .function .sin] ∧
      (Expr.read 3 "y sin(cos(x))").outcome.mapError Failure.fault =
        .error (.danglingOperand (.identifier "y")) := by
  have hread : (Postfix.read 3 "y sin(cos(x))").outcome =
      .ok [.identifier "y", .identifier "x", .function .cos, .function .sin] := by rfl
  obtain ⟨hline, htree⟩ := postfixLine_keeps_expression.2 _ _ _ hread
  exact ⟨hread, hline, htree.symm⟩

end SymbolicCalculus
