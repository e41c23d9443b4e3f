/-
Module: SymbolicCalculus.Proofs.Lexing
Layer: Proofs
Purpose: How texts are read that are put together from others. Where two texts meet in characters of
  different lexemes, the tokens of the whole are the tokens of the one and then of the other. With
  this every line that shows tokens is read piece by piece: each token is read as itself, but for a
  negative literal, whose sign is read as an operator.
Trusted boundary: none
Main exports: Token.scan, Token.lexemes_append, Token.fault_of_ofLexeme, Token.scan_append,
  Token.isWellNamed, Token.reread, Token.runsInto, Token.scan_text, Token.tokenize_infixLine
-/
import SymbolicCalculus.Settings
import SymbolicCalculus.Token.Lexer
import SymbolicCalculus.Token.Printing
import SymbolicCalculus.Logged
import Mathlib.Data.List.SplitBy

namespace SymbolicCalculus

/-- A variable is a word of letters that names no function. -/
theorem Settings.isVariable_iff {name : String} :
    isVariable name = true ↔ name.toList ≠ [] ∧ (∀ c ∈ name.toList, c.isAlpha = true) ∧
      ElementaryFunction.ofName? name = none := by
  simp [isVariable, and_assoc]

/-- The name of a function is a word of letters. -/
theorem ElementaryFunction.isAlpha_of_mem_name {f : ElementaryFunction} {c : Char}
    (h : c ∈ f.name.toList) : c.isAlpha = true := by
  have hall : f.name.toList.all Char.isAlpha = true := by cases f <;> decide
  exact List.all_eq_true.mp hall c h

theorem ElementaryFunction.name_ne_nil (f : ElementaryFunction) : f.name.toList ≠ [] := by
  cases f <;> decide

/-- A fault in a text that stands so many bytes further on. -/
def Fault.movedBy (width : Nat) : Fault → Fault
  | .unexpectedCharacter c position => .unexpectedCharacter c (position + width)
  | fault => fault

namespace Token

/-- The tokens of a text that stands behind so many bytes. -/
def scan (position : Nat) (text : List Char) : Except Fault (List Token) :=
  ofLexemes position (lexemes text)

theorem tokenize_eq_scan (text : String) : tokenize text = scan 0 text.toList := rfl

/-- Characters take as many bytes as the text they make up. -/
theorem byteWidth_eq_utf8ByteSize (text : List Char) :
    byteWidth text = (String.ofList text).utf8ByteSize := by
  induction text with
  | nil => rfl
  | cons c rest ih =>
      have hc : byteWidth (c :: rest) = c.utf8Size + byteWidth rest := rfl
      rw [hc, ih, String.ofList_cons, String.utf8ByteSize_append, String.utf8ByteSize_singleton]

/-! ### Lexemes -/

/-- Two texts meet in characters of different lexemes. -/
def Separate (before after : List Char) : Prop :=
  ∀ x ∈ before.getLast?, ∀ y ∈ after.head?, joins x y = false

theorem joins_comm (x y : Char) : joins x y = joins y x := by
  rw [joins, joins, Bool.and_comm, Bool.and_comm (x := x.isAlpha)]

/-- A letter joins just the letters. -/
theorem joins_of_isAlpha {x y : Char} (hy : y.isAlpha = true) : joins x y = x.isAlpha := by
  rw [joins, hy, Text.isDigit_eq_false_of_isAlpha hy, Bool.and_false, Bool.and_true, Bool.false_or]

/-- A digit joins just the digits. -/
theorem joins_of_isDigit {x y : Char} (hy : y.isDigit = true) : joins x y = x.isDigit := by
  have halpha : y.isAlpha = false := by
    rw [← Bool.not_eq_true]
    intro h
    rw [Text.isDigit_eq_false_of_isAlpha h] at hy
    cases hy
  rw [joins, hy, halpha, Bool.and_true, Bool.and_false, Bool.or_false]

theorem joins_of_isAlphanum_left {x y : Char} (h : x.isAlphanum = false) : joins x y = false := by
  obtain ⟨halpha, hdigit⟩ := Bool.or_eq_false_iff.mp h
  rw [joins, halpha, hdigit]
  rfl

theorem joins_of_isAlphanum_right {x y : Char} (h : y.isAlphanum = false) : joins x y = false := by
  obtain ⟨halpha, hdigit⟩ := Bool.or_eq_false_iff.mp h
  rw [joins, halpha, hdigit, Bool.and_false, Bool.and_false]
  rfl

/-- Nothing joins a character that is no letter and no digit. -/
theorem separate_concat {c : Char} (h : c.isAlphanum = false) (before after : List Char) :
    Separate (before ++ [c]) after := by
  intro x hx y _
  rw [List.getLast?_concat] at hx
  cases hx
  exact joins_of_isAlphanum_left h

theorem separate_cons {c : Char} (h : c.isAlphanum = false) (before after : List Char) :
    Separate before (c :: after) := by
  intro x _ y hy
  cases hy
  exact joins_of_isAlphanum_right h

@[simp] theorem flatten_lexemes (text : List Char) : (lexemes text).flatten = text :=
  List.flatten_splitBy joins text

theorem isChain_of_mem_lexemes {text lexeme : List Char} (h : lexeme ∈ lexemes text) :
    lexeme.IsChain (fun x y => joins x y = true) :=
  List.isChain_of_mem_splitBy h

/-- A lexeme that begins with a letter is a run of letters. -/
theorem isAlpha_of_mem_lexeme {c : Char} {rest : List Char}
    (hchain : (c :: rest).IsChain (fun x y => joins x y = true)) (hc : c.isAlpha = true) :
    ∀ x ∈ c :: rest, x.isAlpha = true := by
  refine hchain.induction (fun x => x.isAlpha = true) _ (fun x y hjoins hx => ?_) fun _ => hc
  rwa [joins_comm, joins_of_isAlpha hx] at hjoins

/-- A lexeme that begins with a digit is a run of digits. -/
theorem isDigit_of_mem_lexeme {c : Char} {rest : List Char}
    (hchain : (c :: rest).IsChain (fun x y => joins x y = true)) (hc : c.isDigit = true) :
    ∀ x ∈ c :: rest, x.isDigit = true := by
  refine hchain.induction (fun x => x.isDigit = true) _ (fun x y hjoins hx => ?_) fun _ => hc
  rwa [joins_comm, joins_of_isDigit hx] at hjoins

theorem lexemes_append {before after : List Char} (h : Separate before after) :
    lexemes (before ++ after) = lexemes before ++ lexemes after :=
  List.splitBy_append h

/-- A lexeme is not read when it is a number that is too large, or a character of no class. -/
theorem fault_of_ofLexeme {position : Nat} {lexeme : List Char} {fault : Fault}
    (h : ofLexeme position lexeme = .error fault) :
    ∃ c rest, lexeme = c :: rest ∧
      (c.isDigit = true ∧ ¬ Nat.ofDigitChars 10 lexeme 0 < literalBound ∧
          fault = .literalOutOfRange (.ofList lexeme) ∨
        c.isAlphanum = false ∧ Text.isBlank c = false ∧ ofSymbol? c = none ∧
          fault = .unexpectedCharacter c position) := by
  cases lexeme with
  | nil => cases h
  | cons c rest =>
      refine ⟨c, rest, rfl, ?_⟩
      rw [ofLexeme] at h
      split at h
      · rename_i hdigit
        rw [ofDigits] at h
        split at h
        · cases h
        · rename_i hrange
          cases h
          exact .inl ⟨hdigit, hrange, rfl⟩
      · rename_i hdigit
        split at h
        · cases h
        · rename_i halpha
          split at h
          · cases h
          · rename_i hblank
            split at h
            · cases h
            · rename_i hsymbol
              cases h
              refine .inr ⟨?_, by simpa using hblank, hsymbol, rfl⟩
              simpa [Char.isAlphanum] using And.intro halpha hdigit

/-- Reading fails at a lexeme before which all are read. -/
theorem exists_of_ofLexemes {position : Nat} {lexemes : List (List Char)} {fault : Fault}
    (h : ofLexemes position lexemes = .error fault) :
    ∃ earlier lexeme later tokens, lexemes = earlier ++ lexeme :: later ∧
      ofLexemes position earlier = .ok tokens ∧
      ofLexeme (position + byteWidth earlier.flatten) lexeme = .error fault := by
  induction lexemes generalizing position with
  | nil => cases h
  | cons first rest ih =>
      rw [ofLexemes] at h
      rcases except_bind_eq_error_iff.mp h with hfirst | ⟨token, hfirst, hrest⟩
      · exact ⟨[], first, rest, [], rfl, rfl, hfirst⟩
      · rcases except_bind_eq_error_iff.mp hrest with hlater | ⟨later, -, hnone⟩
        · obtain ⟨earlier, lexeme, later, tokens, rfl, hearlier, hlexeme⟩ := ih hlater
          refine ⟨first :: earlier, lexeme, later, token.toList ++ tokens, rfl, ?_, ?_⟩
          · rw [ofLexemes, hfirst, except_ok_bind, hearlier]
            rfl
          · rwa [List.flatten_cons, byteWidth_append, ← Nat.add_assoc]
        · cases hnone

/-! ### Texts that are put together -/

/-- Separate texts are read one after the other. -/
theorem scan_append {before after : List Char} (h : Separate before after) (position : Nat) :
    scan position (before ++ after) = do
      let first ← scan position before
      let second ← scan (position + byteWidth before) after
      return first ++ second := by
  rw [scan, lexemes_append h, ofLexemes_append, flatten_lexemes]
  rfl

/-- Where a lexeme stands is seen only in the position of an unexpected character. -/
theorem ofLexeme_add (position width : Nat) (lexeme : List Char) :
    ofLexeme (position + width) lexeme =
      (ofLexeme position lexeme).mapError (Fault.movedBy width) := by
  cases lexeme with
  | nil => rfl
  | cons c rest =>
      rw [ofLexeme, ofLexeme]
      split
      · rw [ofDigits]
        split
        · rfl
        · rfl
      · split
        · rfl
        · split
          · rfl
          · split
            · rfl
            · rfl

theorem ofLexemes_add (position width : Nat) (lexemes : List (List Char)) :
    ofLexemes (position + width) lexemes =
      (ofLexemes position lexemes).mapError (Fault.movedBy width) := by
  induction lexemes generalizing position with
  | nil => rfl
  | cons lexeme rest ih =>
      rw [ofLexemes, ofLexemes, ofLexeme_add, Nat.add_right_comm, ih]
      cases ofLexeme position lexeme with
      | error fault => rfl
      | ok token =>
          cases ofLexemes (position + byteWidth lexeme) rest with
          | error fault => rfl
          | ok tokens => rfl

/-- A text is read in the same way wherever it stands, but for the place of a fault. -/
theorem scan_eq_tokenize (position : Nat) (text : String) :
    scan position text.toList = (tokenize text).mapError (Fault.movedBy position) := by
  rw [scan, ← Nat.zero_add position, ofLexemes_add, Nat.zero_add]
  rfl

/-- A text that can be read can be read anywhere. -/
theorem scan_of_tokenize {text : String} {tokens : List Token} (h : tokenize text = .ok tokens)
    (position : Nat) : scan position text.toList = .ok tokens := by
  rw [scan_eq_tokenize, h]
  rfl

/-- Separate texts that can be read are read together. -/
theorem scan_append_of_ok {before after : List Char} {first second : List Token}
    (hseparate : Separate before after)
    (hfirst : ∀ position, scan position before = .ok first)
    (hsecond : ∀ position, scan position after = .ok second) (position : Nat) :
    scan position (before ++ after) = .ok (first ++ second) := by
  rw [scan_append hseparate, hfirst, except_ok_bind, hsecond]
  rfl

/-! ### Texts of a single lexeme -/

theorem lexemes_of_joins {text : List Char} (hne : text ≠ [])
    (h : ∀ x ∈ text, ∀ y ∈ text, joins x y = true) : lexemes text = [text] :=
  List.splitBy_of_isChain hne (List.pairwise_of_forall_mem_list h).isChain

/-- Digits by themselves are one lexeme. -/
theorem lexemes_digits {digits : List Char} (hne : digits ≠ [])
    (h : ∀ c ∈ digits, c.isDigit = true) : lexemes digits = [digits] := by
  apply lexemes_of_joins hne
  intro x hx y hy
  rw [joins_of_isDigit (h y hy)]
  exact h x hx

/-- A run of digits is read as its literal. -/
theorem scan_digits {digits : List Char} (hne : digits ≠ [])
    (h : ∀ c ∈ digits, c.isDigit = true) (position : Nat) :
    scan position digits = (ofDigits digits).map ([·]) := by
  rw [scan, lexemes_digits hne h]
  cases digits with
  | nil => contradiction
  | cons c rest =>
      rw [ofLexemes, ofLexeme, if_pos (h c List.mem_cons_self)]
      cases ofDigits (c :: rest) <;> rfl

/-- A run of letters is read as one word. -/
theorem scan_word {word : List Char} (hne : word ≠ []) (h : ∀ c ∈ word, c.isAlpha = true)
    (position : Nat) : scan position word = .ok [ofWord (.ofList word)] := by
  have hjoins : ∀ x ∈ word, ∀ y ∈ word, joins x y = true := by
    intro x hx y hy
    rw [joins_of_isAlpha (h y hy)]
    exact h x hx
  rw [scan, lexemes_of_joins hne hjoins]
  cases word with
  | nil => contradiction
  | cons c rest =>
      have hc := h c List.mem_cons_self
      rw [ofLexemes, ofLexeme, Text.isDigit_eq_false_of_isAlpha hc, hc]
      rfl

/-- A text that begins with a letter is read as its longest word first. -/
theorem scan_of_head_isAlpha {text : List Char} (h : ∃ c ∈ text.head?, c.isAlpha = true)
    (position : Nat) :
    scan position text = do
      let later ← scan (position + byteWidth (text.takeWhile Char.isAlpha))
        (text.dropWhile Char.isAlpha)
      return ofWord (.ofList (text.takeWhile Char.isAlpha)) :: later := by
  obtain ⟨c, hc, halpha⟩ := h
  have hne : text.takeWhile Char.isAlpha ≠ [] := by
    obtain ⟨rest, rfl⟩ := List.head?_eq_some_iff.mp hc
    rw [List.takeWhile_cons_of_pos halpha]
    exact List.cons_ne_nil _ _
  have hword : ∀ x ∈ text.takeWhile Char.isAlpha, x.isAlpha = true :=
    List.all_eq_true.mp List.all_takeWhile
  have hseparate : Separate (text.takeWhile Char.isAlpha) (text.dropWhile Char.isAlpha) := by
    intro x hx y hy
    have hstop := List.head?_dropWhile_not Char.isAlpha text
    rw [Option.mem_def.mp hy] at hstop
    rw [joins_comm, joins_of_isAlpha (hword x (List.mem_of_mem_getLast? hx))]
    exact hstop
  conv_lhs => rw [← List.takeWhile_append_dropWhile (p := Char.isAlpha) (l := text)]
  rw [scan_append hseparate, scan_word hne hword]
  rfl

/-- A blank by itself is read as nothing. -/
theorem scan_singleton_of_isBlank {c : Char} (h : Text.isBlank c = true) (position : Nat) :
    scan position [c] = .ok [] := by
  obtain ⟨halpha, hdigit⟩ := Bool.or_eq_false_iff.mp (Text.isAlphanum_eq_false_of_isBlank h)
  have hlexemes : lexemes [c] = [[c]] := rfl
  rw [scan, hlexemes, ofLexemes, ofLexeme, hdigit, halpha, h]
  rfl

/-- A blank separates, and is read as nothing. -/
theorem scan_cons_of_isBlank {c : Char} (h : Text.isBlank c = true) (text : List Char)
    (position : Nat) : scan position (c :: text) = scan (position + byteWidth [c]) text := by
  have hseparate : Separate [c] text :=
    separate_concat (Text.isAlphanum_eq_false_of_isBlank h) [] text
  rw [← List.singleton_append, scan_append hseparate, scan_singleton_of_isBlank h, except_ok_bind]
  simp only [List.nil_append, bind_pure]

theorem scan_blanks {blanks : List Char} (h : ∀ c ∈ blanks, Text.isBlank c = true)
    (position : Nat) : scan position blanks = .ok [] := by
  induction blanks generalizing position with
  | nil => rfl
  | cons c rest ih =>
      rw [scan_cons_of_isBlank (h c List.mem_cons_self)]
      exact ih (fun c hc => h c (List.mem_cons_of_mem _ hc)) _

/-! ### The text of a token -/

/-- Whether a token's name, if it is an identifier, is one that a text can give. -/
def isWellNamed : Token → Bool
  | .identifier name => Settings.isVariable name
  | .literal _ | .function _ | .operator _ | .openParen | .closeParen => true

/-- Whether a token is a literal with a minus sign. -/
def isNegative : Token → Bool
  | .literal value => value.toInt < 0
  | .identifier _ | .function _ | .operator _ | .openParen | .closeParen => false

/-- Only a value carries a sign or a name. -/
theorem isNegative_and_isWellNamed_of_isValue {token : Token} (h : token.isValue = false) :
    token.isNegative = false ∧ token.isWellNamed = true := by
  cases token with
  | literal _ | identifier _ => cases h
  | function _ | operator _ | openParen | closeParen => exact ⟨rfl, rfl⟩

/-- The tokens that a token's own text is read as. A minus sign is always an operator, and the
    number behind it is a literal of its own, if it fits. -/
def reread : Token → Except Fault (List Token)
  | .literal value =>
      if value.toInt < 0 then
        (ofDigits (Nat.toDigits 10 value.toInt.natAbs)).map ([.operator .subtract, ·])
      else .ok [.literal value]
  | .identifier name => .ok [.identifier name]
  | .function f => .ok [.function f]
  | .operator op => .ok [.operator op]
  | .openParen => .ok [.openParen]
  | .closeParen => .ok [.closeParen]

/-- The decimal digits of a number are read as its literal. -/
theorem scan_toDigits (n : Nat) (position : Nat) :
    scan position (Nat.toDigits 10 n) = (ofDigits (Nat.toDigits 10 n)).map ([·]) :=
  scan_digits Nat.toDigits_ne_nil
    (fun _ hc => Nat.isDigit_of_mem_toDigits (by decide) (by decide) hc) position

/-- The digits of a literal without a sign are read as just that literal. -/
theorem ofDigits_toDigits {value : Int64} (h : 0 ≤ value.toInt) :
    ofDigits (Nat.toDigits 10 value.toInt.toNat) = .ok (.literal value) := by
  have hbound : value.toInt.toNat < literalBound := by
    have hlt := value.toInt_lt
    rw [literalBound]
    omega
  have hvalue : Int64.ofNat value.toInt.toNat = value := by
    rw [← Int64.ofInt_eq_ofNat, Int.toNat_of_nonneg h, Int64.ofInt_toInt]
  rw [ofDigits, Nat.ofDigitChars_ten_toDigits, if_pos hbound, hvalue]

theorem toList_text_literal (value : Int64) :
    (text (.literal value)).toList =
      if value.toInt < 0 then '-' :: Nat.toDigits 10 value.toInt.natAbs
      else Nat.toDigits 10 value.toInt.toNat := by
  rw [text, Int.repr_eq_if]
  by_cases h : value.toInt < 0
  · have habs : (-value.toInt).toNat = value.toInt.natAbs := by omega
    rw [if_neg (by omega), if_pos h, String.toList_append, Nat.toList_repr, habs]
    rfl
  · rw [if_pos (by omega), if_neg h, Nat.toList_repr]

/-- A token's text is read as what the token is reread as, wherever it stands. -/
theorem scan_text {token : Token} (h : token.isWellNamed = true) (position : Nat) :
    scan position token.text.toList = token.reread := by
  cases token with
  | literal value =>
      rw [toList_text_literal, reread]
      split
      · have hseparate : Separate ['-'] (Nat.toDigits 10 value.toInt.natAbs) :=
          separate_concat rfl [] _
        have hsign : scan position ['-'] = .ok [.operator .subtract] := rfl
        rw [← List.singleton_append, scan_append hseparate, hsign, except_ok_bind, scan_toDigits]
        cases ofDigits (Nat.toDigits 10 value.toInt.natAbs) <;> rfl
      · rename_i hsign
        rw [scan_toDigits, ofDigits_toDigits (Int.not_lt.mp hsign)]
        rfl
  | identifier name =>
      obtain ⟨hne, halpha, hname⟩ := Settings.isVariable_iff.mp h
      have hword := scan_word hne halpha position
      rw [String.ofList_toList, ofWord, hname] at hword
      exact hword
  | function f =>
      have hword := scan_word f.name_ne_nil (fun _ => f.isAlpha_of_mem_name) position
      rw [String.ofList_toList, ofWord, ElementaryFunction.ofName?_name] at hword
      exact hword
  | operator op => cases op <;> rfl
  | openParen => rfl
  | closeParen => rfl

/-! ### Lines of tokens -/

/-- Whether a token's text would become one word with the text of the next. Only names of functions
    stand before others without a blank. -/
def runsInto (before after : Token) : Bool :=
  match before, after with
  | .function _, .identifier _ | .function _, .function _ => true
  | _, _ => false

/-- What the tokens of a line are read as, one after the other. -/
def rereadAll (tokens : List Token) : Except Fault (List Token) :=
  (tokens.mapM reread).map List.flatten

@[simp] theorem rereadAll_nil : rereadAll [] = .ok [] := rfl

theorem rereadAll_cons (token : Token) (rest : List Token) :
    rereadAll (token :: rest) = do
      let first ← token.reread
      let later ← rereadAll rest
      return first ++ later := by
  rw [rereadAll, rereadAll, List.mapM_cons]
  cases token.reread with
  | error fault => rfl
  | ok first =>
      cases rest.mapM reread with
      | error fault => rfl
      | ok later => rfl

/-- The text of a token begins with a letter only if it is a word. -/
theorem isAlpha_head_text {token : Token} {c : Char} (hc : c ∈ token.text.toList.head?)
    (h : c.isAlpha = true) : (∃ name, token = .identifier name) ∨ ∃ f, token = .function f := by
  cases token with
  | identifier name => exact .inl ⟨name, rfl⟩
  | function f => exact .inr ⟨f, rfl⟩
  | literal value =>
      rw [toList_text_literal] at hc
      split at hc
      · cases hc
        exact absurd h (by decide)
      · have hmem := List.mem_of_mem_head? hc
        have hdigit := Nat.isDigit_of_mem_toDigits (by decide) (by decide) hmem
        rw [Text.isDigit_eq_false_of_isAlpha h] at hdigit
        cases hdigit
  | operator op =>
      cases op <;> (cases hc; exact absurd h (by decide))
  | openParen =>
      cases hc
      exact absurd h (by decide)
  | closeParen =>
      cases hc
      exact absurd h (by decide)

theorem text_ne_nil {token : Token} (h : token.isWellNamed = true) : token.text.toList ≠ [] := by
  cases token with
  | literal value =>
      rw [toList_text_literal]
      split
      · exact List.cons_ne_nil _ _
      · exact Nat.toDigits_ne_nil
  | identifier name =>
      exact (Settings.isVariable_iff.mp h).1
  | function f => exact f.name_ne_nil
  | operator op => cases op <;> decide
  | openParen => decide
  | closeParen => decide

theorem separator_eq (before after : Token) :
    separator before after = "" ∨ separator before after = " " := by
  rw [separator]
  split
  · exact .inl rfl
  · exact .inr rfl

/-- Tokens stand without a blank between them only inside parentheses or behind a function. -/
theorem opensGroup_or_of_separator {before after : Token} (h : separator before after = "") :
    before.opensGroup = true ∨ after = .closeParen := by
  rw [separator] at h
  split at h
  · rename_i hgroup
    simpa using hgroup
  · exact absurd h (by decide)

/-- Tokens that stand without a blank between them are separate unless one runs into the other. -/
theorem separate_text {before after : Token} (hseparator : separator before after = "")
    (hruns : before.runsInto after = false) (hnamed : after.isWellNamed = true)
    (rest : List Char) : Separate before.text.toList (after.text.toList ++ rest) := by
  intro x hx y hy
  rw [List.head?_append_of_ne_nil _ (text_ne_nil hnamed)] at hy
  rcases opensGroup_or_of_separator hseparator with hgroup | rfl
  · cases before with
    | openParen =>
        cases hx
        exact joins_of_isAlphanum_left rfl
    | function f =>
        have hx : x.isAlpha = true := f.isAlpha_of_mem_name (List.mem_of_mem_getLast? hx)
        have hy : y.isAlpha = false := by
          rw [← Bool.not_eq_true]
          intro h
          rcases isAlpha_head_text hy h with ⟨name, rfl⟩ | ⟨g, rfl⟩
          · cases hruns
          · cases hruns
        rwa [joins_comm, joins_of_isAlpha hx]
    | literal _ | identifier _ | operator _ | closeParen => cases hgroup
  · cases hy
    exact joins_of_isAlphanum_right rfl

/-- A line begins with the text of its first token. -/
theorem exists_infixPieces_eq (token : Token) (rest : List Token) :
    ∃ tail, (infixPieces (token :: rest)).flatMap String.toList = token.text.toList ++ tail := by
  cases rest with
  | nil => exact ⟨[], by simp [infixPieces]⟩
  | cons next rest => exact ⟨_, by rw [infixPieces, List.flatMap_cons]⟩

/-- Behind a blank a text is read on as if nothing stood before it. -/
theorem scan_text_blank {token : Token} (h : token.isWellNamed = true) (text : List Char)
    (position : Nat) :
    scan position (token.text.toList ++ ' ' :: text) = do
      let first ← token.reread
      let later ← scan (position + byteWidth (token.text.toList ++ [' '])) text
      return first ++ later := by
  have hseparate : Separate token.text.toList (' ' :: text) := separate_cons rfl _ _
  have hblank : Text.isBlank ' ' = true := rfl
  rw [scan_append hseparate, scan_text h, byteWidth_append, ← Nat.add_assoc]
  simp only [scan_cons_of_isBlank hblank]

/-- The first token of a line of infix tokens is read by itself, unless it runs into the next. -/
theorem scan_infixPieces_cons {token next : Token} (rest : List Token)
    (htoken : token.isWellNamed = true) (hnext : next.isWellNamed = true)
    (hruns : token.runsInto next = false) (position : Nat) :
    scan position ((infixPieces (token :: next :: rest)).flatMap String.toList) = do
      let first ← token.reread
      let later ← scan (position + byteWidth (token.text.toList ++ (separator token next).toList))
        ((infixPieces (next :: rest)).flatMap String.toList)
      return first ++ later := by
  rw [infixPieces, List.flatMap_cons, List.flatMap_cons]
  rcases separator_eq token next with hseparator | hseparator
  · obtain ⟨tail, htail⟩ := exists_infixPieces_eq next rest
    have hseparate := separate_text hseparator hruns hnext tail
    rw [← htail] at hseparate
    rw [hseparator, String.toList_empty, List.nil_append, List.append_nil, scan_append hseparate,
      scan_text htoken]
  · rw [hseparator]
    exact scan_text_blank htoken _ position

/-- A line of infix tokens is read token by token, as long as no name runs into the next. -/
theorem scan_infixPieces {tokens : List Token}
    (hnamed : ∀ token ∈ tokens, token.isWellNamed = true)
    (hruns : tokens.IsChain (fun before after => before.runsInto after = false))
    (position : Nat) :
    scan position ((infixPieces tokens).flatMap String.toList) = rereadAll tokens := by
  induction tokens generalizing position with
  | nil => rfl
  | cons token rest ih =>
      have htoken := hnamed token List.mem_cons_self
      have hrest := fun position =>
        ih (fun token h => hnamed token (List.mem_cons_of_mem _ h)) hruns.tail position
      cases rest with
      | nil =>
          rw [infixPieces, List.flatMap_singleton, scan_text htoken, rereadAll_cons, rereadAll_nil]
          simp only [except_ok_bind, List.append_nil, bind_pure]
      | cons next rest =>
          have hnext := hnamed next (by simp)
          rw [scan_infixPieces_cons rest htoken hnext (List.isChain_cons_cons.mp hruns).1,
            rereadAll_cons]
          simp only [hrest]

/-- The line that shows infix tokens is read token by token. -/
theorem tokenize_infixLine {tokens : List Token}
    (hnamed : ∀ token ∈ tokens, token.isWellNamed = true)
    (hruns : tokens.IsChain (fun before after => before.runsInto after = false)) :
    tokenize (infixLine tokens) = rereadAll tokens := by
  rw [tokenize_eq_scan, infixLine, String.toList_join]
  exact scan_infixPieces hnamed hruns 0

end Token

end SymbolicCalculus
