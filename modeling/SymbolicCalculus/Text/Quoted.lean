/-
Module: SymbolicCalculus.Text.Quoted
Layer: Text
Purpose: Texts between double quotes, on one line and with nothing invisible in them. A quote and a
  backslash are escaped by a backslash, the common control characters by a letter, and every other
  character that does not show by its number in hexadecimal digits.
Trusted boundary: none
Main exports: Text.escape, Text.quote
-/
import SymbolicCalculus.Text.Printable

namespace SymbolicCalculus.Text

/-- A character by its number: lower-case hexadecimal digits in braces, without leading zeros. -/
def escapeNumber (c : Char) : List Char :=
  '\\' :: 'u' :: '\x7b' :: Nat.toDigits 16 c.toNat ++ ['\x7d']

/-- What a character becomes inside quotes. -/
def escape (c : Char) : List Char :=
  if c = '"' ∨ c = '\\' then ['\\', c]
  else if c = '\x00' then ['\\', '0']
  else if c = '\t' then ['\\', 't']
  else if c = '\n' then ['\\', 'n']
  else if c = '\r' then ['\\', 'r']
  else if showsAlone c then [c]
  else escapeNumber c

/-- A text between quotes. -/
def quote (text : String) : String :=
  .ofList ('"' :: text.toList.flatMap escape ++ ['"'])

end SymbolicCalculus.Text
