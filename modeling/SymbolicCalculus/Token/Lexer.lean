/-
Module: SymbolicCalculus.Token.Lexer
Layer: Tokens
Purpose: Splitting a text into tokens. The text is cut into lexemes, which are the longest runs of
  digits, the longest runs of letters, and every other character by itself; then each lexeme is read
  on its own. No state passes from one lexeme to the next but the number of bytes read so far, which
  only an unexpected character reports. Words are read whole, so `sinx` is one identifier.
Trusted boundary: none
Main exports: Token.lexemes, Token.ofLexeme, Token.tokenize
-/
import SymbolicCalculus.Fault
import SymbolicCalculus.Text.Blank

namespace SymbolicCalculus.Token

/-- Whether two neighbouring characters belong to one lexeme. -/
def joins (before after : Char) : Bool :=
  (before.isDigit && after.isDigit) || (before.isAlpha && after.isAlpha)

/-- The lexemes of a text, from left to right. -/
def lexemes (text : List Char) : List (List Char) :=
  text.splitBy joins

/-- The least natural number above every integer literal, which is two to the power of 63. -/
def literalBound : Nat := 0x8000000000000000

/-- The literal that a run of digits denotes. Leading zeros are allowed. -/
def ofDigits (digits : List Char) : Except Fault Token :=
  let value := Nat.ofDigitChars 10 digits 0
  if value < literalBound then .ok (.literal (.ofNat value))
  else .error (.literalOutOfRange (.ofList digits))

/-- A word is a function if it names one, and an identifier otherwise. -/
def ofWord (word : String) : Token :=
  match ElementaryFunction.ofName? word with
  | some f => .function f
  | none => .identifier word

/-- The token that a single character stands for: an operator or a parenthesis. -/
def ofSymbol? : Char → Option Token
  | '(' => some .openParen
  | ')' => some .closeParen
  | c => (BinaryOp.ofSymbol? c).map .operator

/-- The token that a lexeme stands for, if it is not a blank. The position is the number of bytes
    before the lexeme. -/
def ofLexeme (position : Nat) : List Char → Except Fault (Option Token)
  | [] => .ok none
  | c :: rest =>
      if c.isDigit then (ofDigits (c :: rest)).map some
      else if c.isAlpha then .ok (some (ofWord (.ofList (c :: rest))))
      else if Text.isBlank c then .ok none
      else match ofSymbol? c with
        | some token => .ok (some token)
        | none => .error (.unexpectedCharacter c position)

/-- The number of bytes that characters take in UTF-8. -/
def byteWidth (text : List Char) : Nat :=
  text.foldr (fun c width => c.utf8Size + width) 0

/-- Reads lexemes from left to right, so the leftmost fault is the one reported. -/
def ofLexemes (position : Nat) : List (List Char) → Except Fault (List Token)
  | [] => .ok []
  | lexeme :: rest => do
      let token ← ofLexeme position lexeme
      let tokens ← ofLexemes (position + byteWidth lexeme) rest
      return token.toList ++ tokens

@[simp] theorem byteWidth_append (a b : List Char) :
    byteWidth (a ++ b) = byteWidth a + byteWidth b := by
  induction a with
  | nil => exact (Nat.zero_add _).symm
  | cons c rest ih =>
    have hc : ∀ text, byteWidth (c :: text) = c.utf8Size + byteWidth text := fun _ => rfl
    rw [List.cons_append, hc, hc, ih, Nat.add_assoc]

/-- Lexemes can be read in two parts: what the first part leaves behind is its width. -/
theorem ofLexemes_append (position : Nat) (a b : List (List Char)) :
    ofLexemes position (a ++ b) = do
      let first ← ofLexemes position a
      let second ← ofLexemes (position + byteWidth a.flatten) b
      return first ++ second := by
  induction a generalizing position with
  | nil =>
    cases h : ofLexemes position b <;> simp [ofLexemes, byteWidth, h, bind, Except.bind, pure,
      Except.pure]
  | cons lexeme rest ih =>
    rw [List.cons_append, ofLexemes, ofLexemes]
    cases ofLexeme position lexeme with
    | error e => rfl
    | ok token =>
      have h := ih (position + byteWidth lexeme)
      rw [Nat.add_assoc, ← byteWidth_append, ← List.flatten_cons] at h
      cases hr : ofLexemes (position + byteWidth lexeme) rest <;>
        cases hb : ofLexemes (position + byteWidth (lexeme :: rest).flatten) b <;>
        simp_all [bind, Except.bind, pure, Except.pure]

/-- The tokens of a text. -/
def tokenize (text : String) : Except Fault (List Token) :=
  ofLexemes 0 (lexemes text.toList)

end SymbolicCalculus.Token
