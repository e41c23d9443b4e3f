/-
Module: SymbolicCalculus.Text.Blank
Layer: Text
Purpose: The characters that separate the parts of an expression without being parts themselves:
  those with the property White_Space, of which core's own class of blanks is a part.
Trusted boundary: none
Main exports: isBlank, isAlpha_iff_toNat, isDigit_eq_false_of_isAlpha,
  isAlphanum_eq_false_of_isBlank
-/

namespace SymbolicCalculus.Text

/-- Characters with the property White_Space. -/
def isBlank (c : Char) : Bool :=
  let n := c.toNat
  (0x09 ≤ n && n ≤ 0x0d) || n == 0x20 || n == 0x85 || n == 0xa0 || n == 0x1680 ||
    (0x2000 ≤ n && n ≤ 0x200a) || n == 0x2028 || n == 0x2029 || n == 0x202f || n == 0x205f ||
    n == 0x3000

/-- The letters are two ranges of characters. -/
theorem isAlpha_iff_toNat {c : Char} :
    c.isAlpha = true ↔ (65 ≤ c.toNat ∧ c.toNat ≤ 90) ∨ (97 ≤ c.toNat ∧ c.toNat ≤ 122) := by
  have h : c.isAlpha = (decide (65 ≤ c.toNat ∧ c.toNat ≤ 90) ||
      (decide (97 ≤ c.toNat) && decide (c.toNat ≤ 122))) := rfl
  simp [h]

/-- A letter is no digit. -/
theorem isDigit_eq_false_of_isAlpha {c : Char} (h : c.isAlpha = true) : c.isDigit = false := by
  rw [← Bool.not_eq_true]
  intro hc
  have hletter := isAlpha_iff_toNat.mp h
  have hdigit : 48 ≤ c.toNat ∧ c.toNat ≤ 57 := Char.isDigit_iff_toNat.mp hc
  omega

/-- A blank is neither a letter nor a digit. -/
theorem isAlphanum_eq_false_of_isBlank {c : Char} (h : isBlank c = true) :
    c.isAlphanum = false := by
  rw [← Bool.not_eq_true]
  intro hc
  simp only [isBlank, Bool.or_eq_true, Bool.and_eq_true, decide_eq_true_eq, beq_iff_eq] at h
  rcases Bool.or_eq_true_iff.mp hc with hc | hc
  · have hletter := isAlpha_iff_toNat.mp hc
    omega
  · have hdigit : 48 ≤ c.toNat ∧ c.toNat ≤ 57 := Char.isDigit_iff_toNat.mp hc
    omega

end SymbolicCalculus.Text
