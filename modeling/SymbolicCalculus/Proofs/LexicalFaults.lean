/-
Module: SymbolicCalculus.Proofs.LexicalFaults
Layer: Proofs
Purpose: Which texts can be cut into tokens, and what is said of the others. A text offends with a
  character that belongs to no token, or with a number that is too large for a literal. Both are
  seen in the characters themselves, without cutting the text: a number is a run of digits that is
  as long as it can be. Cutting fails exactly where the leftmost of them begins. Each offending part
  turns out to be a lexeme, and each lexeme that can not be read offends, so the two sides meet in
  the list of lexemes.
Trusted boundary: human-reviewed spec
Main exports: Text.isAllowed, Text.IsDigitRun, Text.Offends, Text.Offends.lexemes_eq,
  Text.offends_of_ofLexeme, Text.scan_eq_error_iff, tokenize_fails_at_leftmost_offence
-/
import SymbolicCalculus.Proofs.Lexing

namespace SymbolicCalculus

namespace Text

/-- The characters that are tokens by themselves: operators and parentheses. -/
def symbols : List Char :=
  ['+', '-', '*', '/', '^', '(', ')']

/-- The characters of expressions: blanks, letters, digits and symbols. -/
def isAllowed (c : Char) : Bool :=
  isBlank c || c.isAlpha || c.isDigit || symbols.contains c

/-- Digits that stand in a text with no other digit before or behind them. -/
structure IsDigitRun (before digits behind : List Char) : Prop where
  ne_nil : digits ≠ []
  isDigit : ∀ c ∈ digits, c.isDigit = true
  before : ∀ c ∈ before.getLast?, c.isDigit = false
  behind : ∀ c ∈ behind.head?, c.isDigit = false

/-- A part of a text, between what stands before it and behind it, and what is wrong with it: it is
    a character that expressions do not have, or a number above all literals. -/
inductive Offends : (before part behind : List Char) → Fault → Prop where
  | character {before behind : List Char} {c : Char} (h : isAllowed c = false) :
      Offends before [c] behind (.unexpectedCharacter c (String.ofList before).utf8ByteSize)
  | literal {before digits behind : List Char} (hrun : IsDigitRun before digits behind)
      (hrange : Int64.maxValue.toInt < Nat.ofDigitChars 10 digits 0) :
      Offends before digits behind (.literalOutOfRange (.ofList digits))

end Text

namespace Token

variable {c : Char} {token : Token} {text before part behind : List Char} {fault : Fault}

/-- A character that is a token by itself is an operator or a parenthesis. -/
theorem mem_symbols_of_ofSymbol? (h : ofSymbol? c = some token) : c ∈ Text.symbols := by
  unfold ofSymbol? at h
  split at h
  · decide
  · decide
  · obtain ⟨op, hop, -⟩ := Option.map_eq_some_iff.mp h
    rw [BinaryOp.ofSymbol?_eq_some_iff.mp hop]
    cases op <;> decide

theorem ofSymbol?_eq_none_iff : ofSymbol? c = none ↔ c ∉ Text.symbols := by
  constructor
  · intro h hmem
    simp only [Text.symbols, List.mem_cons, List.not_mem_nil, or_false] at hmem
    rcases hmem with rfl | rfl | rfl | rfl | rfl | rfl | rfl <;> cases h
  · intro h
    rw [Option.eq_none_iff_forall_ne_some]
    exact fun token htoken => h (mem_symbols_of_ofSymbol? htoken)

/-! ### Lexemes and what stands around them -/

/-- A lexeme that joins nothing around it is one of the lexemes of the whole. -/
theorem lexemes_eq_of_separate (hpart : lexemes part = [part]) (hne : part ≠ [])
    (hbefore : Separate before part) (hbehind : Separate part behind) :
    lexemes (before ++ part ++ behind) = lexemes before ++ part :: lexemes behind := by
  have hleft : Separate before (part ++ behind) := by
    intro x hx y hy
    rw [List.head?_append_of_ne_nil _ hne] at hy
    exact hbefore x hx y hy
  rw [List.append_assoc, lexemes_append hleft, lexemes_append hbehind, hpart]
  rfl

/-- Neighbouring lexemes do not join. -/
theorem separate_of_lexemes {lexeme : List Char} {earlier later : List (List Char)}
    (h : lexemes text = earlier ++ lexeme :: later) :
    Separate earlier.flatten lexeme ∧ Separate lexeme later.flatten := by
  have hcuts := List.isChain_getLast_head_splitBy joins text
  rw [show text.splitBy joins = earlier ++ lexeme :: later from h, List.isChain_append,
    List.isChain_cons] at hcuts
  obtain ⟨-, ⟨hbehind, -⟩, hbefore⟩ := hcuts
  constructor
  · rcases List.eq_nil_or_concat' earlier with rfl | ⟨others, last, rfl⟩
    · nofun
    · obtain ⟨hlast, hlexeme, hjoins⟩ := hbefore last List.getLast?_concat lexeme rfl
      intro x hx y hy
      rw [List.flatten_concat, List.getLast?_append_of_ne_nil _ hlast,
        List.getLast?_eq_some_getLast hlast, Option.mem_some_iff] at hx
      rw [List.head?_eq_some_head hlexeme, Option.mem_some_iff] at hy
      rwa [← hx, ← hy]
  · cases later with
    | nil => nofun
    | cons next rest =>
        obtain ⟨hlexeme, hnext, hjoins⟩ := hbehind next rfl
        intro x hx y hy
        rw [List.getLast?_eq_some_getLast hlexeme, Option.mem_some_iff] at hx
        rw [List.flatten_cons, List.head?_append_of_ne_nil _ hnext,
          List.head?_eq_some_head hnext, Option.mem_some_iff] at hy
        rwa [← hx, ← hy]

/-- Where one lexeme is not read, the list is not. -/
theorem ofLexemes_ne_ok {position : Nat} {lexeme : List Char} {earlier : List (List Char)}
    (h : ofLexeme (position + byteWidth earlier.flatten) lexeme = .error fault)
    (later : List (List Char)) (tokens : List Token) :
    ofLexemes position (earlier ++ lexeme :: later) ≠ .ok tokens := by
  intro hok
  rw [ofLexemes_append] at hok
  obtain ⟨first, -, hrest⟩ := except_bind_eq_ok_iff.mp hok
  obtain ⟨second, hsecond, -⟩ := except_bind_eq_ok_iff.mp hrest
  rw [ofLexemes, h] at hsecond
  cases hsecond

end Token

namespace Text

open Token

variable {c : Char} {text before part behind : List Char} {fault other : Fault}

/-! ### Offences are lexemes -/

/-- A character that is not allowed is of no class. -/
theorem isAllowed_eq_false_iff :
    isAllowed c = false ↔ isBlank c = false ∧ c.isAlphanum = false ∧ ofSymbol? c = none := by
  rw [isAllowed, ofSymbol?_eq_none_iff, Char.isAlphanum, ← List.contains_iff_mem, Bool.not_eq_true]
  simp only [Bool.or_eq_false_iff, and_assoc]

namespace IsDigitRun

variable {digits : List Char}

/-- A run of digits is as long as it can be when nothing around it joins it. -/
theorem iff_separate :
    IsDigitRun before digits behind ↔ (digits ≠ [] ∧ ∀ c ∈ digits, c.isDigit = true) ∧
      Separate before digits ∧ Separate digits behind := by
  constructor
  · intro h
    refine ⟨⟨h.ne_nil, h.isDigit⟩, fun x hx y hy => ?_, fun x hx y hy => ?_⟩
    · rw [joins_of_isDigit (h.isDigit y (List.mem_of_mem_head? hy))]
      exact h.before x hx
    · rw [joins_comm, joins_of_isDigit (h.isDigit x (List.mem_of_mem_getLast? hx))]
      exact h.behind y hy
  · rintro ⟨⟨hne, hdigits⟩, hbefore, hbehind⟩
    refine ⟨hne, hdigits, fun x hx => ?_, fun y hy => ?_⟩
    · rw [← joins_of_isDigit (hdigits _ (List.head_mem hne))]
      exact hbefore x hx _ (List.head?_eq_some_head hne)
    · rw [← joins_of_isDigit (hdigits _ (List.getLast_mem hne)), joins_comm]
      exact hbehind _ (List.getLast?_eq_some_getLast hne) y hy

end IsDigitRun

/-- What offends in a text is one of its lexemes. -/
theorem Offends.lexemes_eq (h : Offends before part behind fault) :
    lexemes (before ++ part ++ behind) = lexemes before ++ part :: lexemes behind := by
  cases h with
  | character h =>
      obtain ⟨-, hclass, -⟩ := isAllowed_eq_false_iff.mp h
      exact lexemes_eq_of_separate rfl (List.cons_ne_nil _ _) (separate_cons hclass _ [])
        (separate_concat hclass [] _)
  | literal hrun hrange =>
      obtain ⟨-, hbefore, hbehind⟩ := IsDigitRun.iff_separate.mp hrun
      exact lexemes_eq_of_separate (lexemes_digits hrun.ne_nil hrun.isDigit) hrun.ne_nil hbefore
        hbehind

/-- A number is above all literals when it reaches their bound. -/
theorem lt_ofDigitChars_iff {digits : List Char} :
    Int64.maxValue.toInt < Nat.ofDigitChars 10 digits 0 ↔
      ¬ Nat.ofDigitChars 10 digits 0 < literalBound := by
  have hmax : Int64.maxValue.toInt = 0x7fffffffffffffff := rfl
  rw [hmax, literalBound]
  omega

/-- A lexeme that offends is not read, and its offence is reported. -/
theorem Offends.ofLexeme_eq (h : Offends before part behind fault) :
    ofLexeme (byteWidth before) part = .error fault := by
  cases h with
  | character h =>
      obtain ⟨hblank, hclass, hsymbol⟩ := isAllowed_eq_false_iff.mp h
      obtain ⟨halpha, hdigit⟩ := Bool.or_eq_false_iff.mp hclass
      rw [ofLexeme, hdigit, halpha, hblank, hsymbol, byteWidth_eq_utf8ByteSize]
      rfl
  | literal hrun hrange =>
      obtain ⟨c, rest, rfl⟩ := List.exists_cons_of_ne_nil hrun.ne_nil
      rw [ofLexeme, if_pos (hrun.isDigit c List.mem_cons_self), ofDigits,
        if_neg (lt_ofDigitChars_iff.mp hrange)]
      rfl

/-- A lexeme that is not read offends. -/
theorem offends_of_ofLexeme (hchain : part.IsChain (fun x y => joins x y = true))
    (hbefore : Separate before part) (hbehind : Separate part behind)
    (h : ofLexeme (byteWidth before) part = .error fault) : Offends before part behind fault := by
  obtain ⟨c, rest, rfl, ⟨hc, hrange, rfl⟩ | ⟨hclass, hblank, hsymbol, rfl⟩⟩ := fault_of_ofLexeme h
  · have hdigits := isDigit_of_mem_lexeme hchain hc
    have hrun := IsDigitRun.iff_separate.mpr
      ⟨⟨List.cons_ne_nil c rest, hdigits⟩, hbefore, hbehind⟩
    exact .literal hrun (lt_ofDigitChars_iff.mpr hrange)
  · have hrest : rest = [] := by
      cases rest with
      | nil => rfl
      | cons d _ =>
          have hjoins := (List.isChain_cons_cons.mp hchain).1
          rw [joins_of_isAlphanum_left hclass] at hjoins
          cases hjoins
    rw [hrest, byteWidth_eq_utf8ByteSize]
    exact .character (isAllowed_eq_false_iff.mpr ⟨hblank, hclass, hsymbol⟩)

/-! ### What offends first -/

/-- A part of a text that offends, and to the left of which none begins that does. -/
structure OffendsFirst (text before part behind : List Char) (fault : Fault) : Prop where
  eq_append : text = before ++ part ++ behind
  offends : Offends before part behind fault
  le_of_offends : ∀ before' part' behind' other, text = before' ++ part' ++ behind' →
    Offends before' part' behind' other → before.length ≤ before'.length

/-- A text in which something offends is not read. -/
theorem Offends.scan_ne_ok (h : Offends before part behind fault) (tokens : List Token) :
    scan 0 (before ++ part ++ behind) ≠ .ok tokens := by
  have hlexeme := h.ofLexeme_eq
  rw [scan, h.lexemes_eq]
  apply ofLexemes_ne_ok
  rwa [flatten_lexemes, Nat.zero_add]

/-- Lexemes that are all read stand before anything that offends. -/
theorem Offends.length_flatten_le {earlier later : List (List Char)} {lexeme : List Char}
    {tokens : List Token} (h : Offends before part behind fault)
    (hlexemes : lexemes (before ++ part ++ behind) = earlier ++ lexeme :: later)
    (hearlier : ofLexemes 0 earlier = .ok tokens) : earlier.flatten.length ≤ before.length := by
  rw [h.lexemes_eq] at hlexemes
  rcases List.append_eq_append_iff.mp hlexemes with ⟨rest, rfl, hrest⟩ | ⟨rest, hbefore, -⟩
  · cases rest with
    | nil => rw [List.append_nil, flatten_lexemes]
    | cons first rest =>
        -- what offends would be among the lexemes that are read
        obtain ⟨rfl, -⟩ := List.cons.inj hrest
        have hlexeme : ofLexeme (0 + byteWidth (lexemes before).flatten) part = .error fault := by
          rw [flatten_lexemes, Nat.zero_add, h.ofLexeme_eq]
        exact absurd hearlier (ofLexemes_ne_ok hlexeme rest tokens)
  · calc
      earlier.flatten.length ≤ (earlier ++ rest).flatten.length := by simp
      _ = before.length := by rw [← hbefore, flatten_lexemes]

/-- A text that is not read fails with what offends first. -/
theorem exists_offendsFirst_of_scan (h : scan 0 text = .error fault) :
    ∃ before part behind, OffendsFirst text before part behind fault := by
  obtain ⟨earlier, lexeme, later, tokens, hlexemes, hearlier, hlexeme⟩ := exists_of_ofLexemes h
  obtain ⟨hbefore, hbehind⟩ := separate_of_lexemes hlexemes
  have hmem : lexeme ∈ lexemes text := by
    rw [hlexemes]
    exact List.mem_append_right _ List.mem_cons_self
  rw [Nat.zero_add] at hlexeme
  refine ⟨earlier.flatten, lexeme, later.flatten, ?_, ?_, ?_⟩
  · rw [← flatten_lexemes text, hlexemes, List.flatten_append, List.flatten_cons, List.append_assoc]
  · exact offends_of_ofLexeme (isChain_of_mem_lexemes hmem) hbefore hbehind hlexeme
  · rintro before' part' behind' other rfl hother
    exact hother.length_flatten_le hlexemes hearlier

/-- What offends first is the same however it was found. -/
theorem OffendsFirst.unique {before' part' behind' : List Char}
    (h : OffendsFirst text before part behind fault)
    (h' : OffendsFirst text before' part' behind' other) : fault = other := by
  have hlength : before.length = before'.length :=
    Nat.le_antisymm (h.le_of_offends _ _ _ _ h'.eq_append h'.offends)
      (h'.le_of_offends _ _ _ _ h.eq_append h.offends)
  have htext := h.eq_append.symm.trans h'.eq_append
  rw [List.append_assoc, List.append_assoc] at htext
  obtain ⟨rfl, -⟩ := List.append_inj htext hlength
  have hlexemes : lexemes before ++ part :: lexemes behind =
      lexemes before ++ part' :: lexemes behind' := by
    rw [← h.offends.lexemes_eq, ← h'.offends.lexemes_eq, ← h.eq_append, ← h'.eq_append]
  obtain ⟨rfl, -⟩ := List.cons.inj (List.append_cancel_left hlexemes)
  have hfault := h.offends.ofLexeme_eq.symm.trans h'.offends.ofLexeme_eq
  cases hfault
  rfl

/-- A text is read exactly when nothing in it offends. -/
theorem exists_scan_eq_ok_iff :
    (∃ tokens, scan 0 text = .ok tokens) ↔
      ∀ before part behind fault, text = before ++ part ++ behind →
        ¬ Offends before part behind fault := by
  constructor
  · rintro ⟨tokens, hok⟩ before part behind fault rfl hoffends
    exact hoffends.scan_ne_ok tokens hok
  · intro h
    cases hread : scan 0 text with
    | ok tokens => exact ⟨tokens, rfl⟩
    | error fault =>
        obtain ⟨before, part, behind, hfirst⟩ := exists_offendsFirst_of_scan hread
        exact absurd hfirst.offends (h before part behind fault hfirst.eq_append)

theorem scan_eq_error_iff :
    scan 0 text = .error fault ↔
      ∃ before part behind, OffendsFirst text before part behind fault := by
  constructor
  · exact exists_offendsFirst_of_scan
  · rintro ⟨before, part, behind, hfirst⟩
    cases hread : scan 0 text with
    | ok tokens =>
        exact absurd hfirst.offends
          (exists_scan_eq_ok_iff.mp ⟨tokens, hread⟩ _ _ _ _ hfirst.eq_append)
    | error other =>
        obtain ⟨before', part', behind', hother⟩ := exists_offendsFirst_of_scan hread
        rw [hother.unique hfirst]

/-- Nothing offends where all characters are allowed and all numbers are in range. -/
theorem forall_not_offends_iff :
    (∀ before part behind fault, text = before ++ part ++ behind →
        ¬ Offends before part behind fault) ↔
      (∀ c ∈ text, isAllowed c = true) ∧
        ∀ before digits behind, text = before ++ digits ++ behind →
          IsDigitRun before digits behind →
            Nat.ofDigitChars 10 digits 0 ≤ Int64.maxValue.toInt := by
  constructor
  · intro h
    refine ⟨fun c hc => ?_, fun before digits behind htext hrun => ?_⟩
    · by_contra hclass
      obtain ⟨before, behind, rfl⟩ := List.append_of_mem hc
      exact h before [c] behind _ (by simp) (.character (Bool.eq_false_iff.mpr hclass))
    · by_contra hrange
      exact h before digits behind _ htext (.literal hrun (Int.not_le.mp hrange))
  · rintro ⟨hclass, hrange⟩ before part behind fault rfl hoffends
    cases hoffends with
    | character hc =>
        rw [hclass _ (by simp)] at hc
        cases hc
    | literal hrun hlarge =>
        exact absurd (hrange before part behind rfl hrun) (Int.not_le.mpr hlarge)

end Text

/-- A text is cut into tokens exactly when all its characters are allowed and every run of digits,
    however long, denotes a number that a literal can hold. Otherwise the fault is that of the
    leftmost part that offends: a character with the number of bytes before it, or the digits of a
    number that is too large. -/
theorem tokenize_fails_at_leftmost_offence (text : String) :
    ((∃ tokens, Token.tokenize text = .ok tokens) ↔
      (∀ c ∈ text.toList, Text.isAllowed c = true) ∧
        ∀ before digits behind, text.toList = before ++ digits ++ behind →
          Text.IsDigitRun before digits behind →
            Nat.ofDigitChars 10 digits 0 ≤ Int64.maxValue.toInt) ∧
    ∀ fault, Token.tokenize text = .error fault ↔
      ∃ before part behind, Text.OffendsFirst text.toList before part behind fault := by
  have hread : Token.tokenize text = Token.scan 0 text.toList := Token.tokenize_eq_scan text
  rw [hread]
  exact ⟨Text.exists_scan_eq_ok_iff.trans Text.forall_not_offends_iff,
    fun fault => Text.scan_eq_error_iff⟩

/-- The number begins before the letter that is not allowed, and so it is reported. -/
example : Token.tokenize "x + 9223372036854775808é" =
    .error (.literalOutOfRange "9223372036854775808") := rfl

/-- Zeros in front make a number no larger. -/
example : Token.tokenize "00000000000000000000009223372036854775807" =
    .ok [.literal Int64.maxValue] := rfl

end SymbolicCalculus
