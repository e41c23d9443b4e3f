/-
Module: SymbolicCalculus.Proofs.TextConcatenation
Layer: Proofs
Purpose: Reading a text in two parts. No state passes from one lexeme to the next, so where a text
  is cut between lexemes its tokens are those of the two parts, and its fault is that of the left
  part, or of the right part, moved by the bytes of the left one. A cut is between lexemes unless
  there are letters on both of its sides, or digits. Blanks that are put into such a cut change no
  token.
Trusted boundary: none
Main exports: meetIn, Token.tokenize_append, Token.tokenize_append_blanks, tokenize_append_of_parts
-/
import SymbolicCalculus.Proofs.Lexing

namespace SymbolicCalculus

/-- Whether a character of some class ends the one text, and one of the same class begins the
    other. -/
def meetIn (p : Char → Bool) (before after : String) : Bool :=
  before.toList.getLast?.any p && after.toList.head?.any p

namespace Token

variable {before after blanks : String}

/-- Only letters join letters, and only digits join digits. -/
theorem separate_of_meetIn (hletters : meetIn Char.isAlpha before after = false)
    (hdigits : meetIn Char.isDigit before after = false) :
    Separate before.toList after.toList := by
  intro x hx y hy
  rw [meetIn, Option.mem_def.mp hx, Option.mem_def.mp hy] at hletters hdigits
  rw [joins, Bool.or_eq_false_iff]
  exact ⟨hdigits, hletters⟩

/-- A text that is cut between lexemes is read as its left part and then as its right part, which
    stands as many bytes further on as the left part has. -/
theorem tokenize_append (h : Separate before.toList after.toList) :
    tokenize (before ++ after) = do
      let first ← tokenize before
      let second ← (tokenize after).mapError (Fault.movedBy before.utf8ByteSize)
      return first ++ second := by
  rw [tokenize_eq_scan, String.toList_append, scan_append h, ← tokenize_eq_scan, scan_eq_tokenize,
    Nat.zero_add, byteWidth_eq_utf8ByteSize, String.ofList_toList]

theorem tokenize_append_eq_ok_iff (h : Separate before.toList after.toList) {tokens : List Token} :
    tokenize (before ++ after) = .ok tokens ↔
      ∃ first second, tokenize before = .ok first ∧ tokenize after = .ok second ∧
        tokens = first ++ second := by
  rw [tokenize_append h, except_bind_eq_ok_iff]
  constructor
  · rintro ⟨first, hfirst, hrest⟩
    obtain ⟨second, hsecond, htokens⟩ := except_bind_eq_ok_iff.mp hrest
    cases htokens
    exact ⟨first, second, hfirst, except_mapError_eq_ok_iff.mp hsecond, rfl⟩
  · rintro ⟨first, second, hfirst, hsecond, rfl⟩
    rw [hsecond]
    exact ⟨first, hfirst, rfl⟩

/-- Blanks behind a text change none of its tokens. -/
theorem tokenize_concat_blanks (hblanks : ∀ c ∈ blanks.toList, Text.isBlank c = true)
    (h : Separate before.toList blanks.toList) {tokens : List Token} :
    tokenize (before ++ blanks) = .ok tokens ↔ tokenize before = .ok tokens := by
  have hnone : tokenize blanks = .ok [] := scan_blanks hblanks 0
  rw [tokenize_append_eq_ok_iff h, hnone]
  constructor
  · rintro ⟨first, second, hfirst, hsecond, rfl⟩
    cases hsecond
    rwa [List.append_nil]
  · intro htokens
    exact ⟨tokens, [], htokens, rfl, (List.append_nil tokens).symm⟩

/-- Blanks between lexemes change no token. -/
theorem tokenize_append_blanks (h : Separate before.toList after.toList)
    (hblanks : ∀ c ∈ blanks.toList, Text.isBlank c = true) {tokens : List Token} :
    tokenize (before ++ blanks ++ after) = .ok tokens ↔
      tokenize (before ++ after) = .ok tokens := by
  by_cases hempty : blanks.toList = []
  · rw [String.toList_eq_nil_iff.mp hempty, String.append_empty]
  · -- a blank joins neither what stands before it nor what stands behind it
    have hblank : ∀ c ∈ blanks.toList, c.isAlphanum = false := fun c hc =>
      Text.isAlphanum_eq_false_of_isBlank (hblanks c hc)
    have hleft : Separate before.toList blanks.toList := fun x _ y hy =>
      joins_of_isAlphanum_right (hblank y (List.mem_of_mem_head? hy))
    have hright : Separate (before ++ blanks).toList after.toList := by
      intro x hx y _
      rw [String.toList_append, List.getLast?_append_of_ne_nil _ hempty] at hx
      exact joins_of_isAlphanum_left (hblank x (List.mem_of_mem_getLast? hx))
    rw [tokenize_append_eq_ok_iff hright, tokenize_append_eq_ok_iff h]
    simp only [tokenize_concat_blanks hblanks hleft]

end Token

/-- Two texts that meet neither in letters nor in digits are read one after the other. A fault of
    the first is the fault of both; a fault of the second is reported as many bytes further on as
    the first has, if it has a position. Blanks between the two change no token. -/
theorem tokenize_append_of_parts {before after : String}
    (hletters : meetIn Char.isAlpha before after = false)
    (hdigits : meetIn Char.isDigit before after = false) :
    (∀ fault, Token.tokenize before = .error fault →
      Token.tokenize (before ++ after) = .error fault) ∧
    (∀ first, Token.tokenize before = .ok first →
      (∀ second, Token.tokenize after = .ok second →
        Token.tokenize (before ++ after) = .ok (first ++ second)) ∧
      (∀ fault, Token.tokenize after = .error fault →
        Token.tokenize (before ++ after) = .error (fault.movedBy before.utf8ByteSize))) ∧
    ∀ blanks : String, (∀ c ∈ blanks.toList, Text.isBlank c = true) →
      ∀ tokens, Token.tokenize (before ++ blanks ++ after) = .ok tokens ↔
        Token.tokenize (before ++ after) = .ok tokens := by
  have hseparate := Token.separate_of_meetIn hletters hdigits
  refine ⟨fun fault hfault => ?_, fun first hfirst => ⟨fun second hsecond => ?_,
    fun fault hfault => ?_⟩, fun blanks hblanks tokens => ?_⟩
  · rw [Token.tokenize_append hseparate, hfault, except_error_bind]
  · exact (Token.tokenize_append_eq_ok_iff hseparate).mpr ⟨first, second, hfirst, hsecond, rfl⟩
  · rw [Token.tokenize_append hseparate, hfirst, hfault]
    rfl
  · exact Token.tokenize_append_blanks hseparate hblanks

/-- Behind `x2` and a blank of three bytes, the fault of `y%` is found six bytes from the start, and
    a blank of two bytes may stand between `x2` and `sin`. -/
theorem tokenize_append_wideBlanks :
    (meetIn Char.isAlpha "x2\u3000" "y%" = false ∧ meetIn Char.isDigit "x2\u3000" "y%" = false ∧
      Token.tokenize "x2\u3000" = .ok [.identifier "x", .literal 2] ∧
      Token.tokenize "y%" = .error (.unexpectedCharacter '%' 1) ∧
      Token.tokenize ("x2\u3000" ++ "y%") = .error (.unexpectedCharacter '%' 6)) ∧
    meetIn Char.isAlpha "x2" "sin" = false ∧ meetIn Char.isDigit "x2" "sin" = false ∧
      Token.tokenize ("x2" ++ "\u00a0" ++ "sin") =
        .ok [.identifier "x", .literal 2, .function .sin] := by
  have hletters : meetIn Char.isAlpha "x2\u3000" "y%" = false := by rfl
  have hdigits : meetIn Char.isDigit "x2\u3000" "y%" = false := by rfl
  have hfirst : Token.tokenize "x2\u3000" = .ok [.identifier "x", .literal 2] := by rfl
  have hfault : Token.tokenize "y%" = .error (.unexpectedCharacter '%' 1) := by rfl
  have hletters' : meetIn Char.isAlpha "x2" "sin" = false := by rfl
  have hdigits' : meetIn Char.isDigit "x2" "sin" = false := by rfl
  have hblank : "\u00a0".toList.all Text.isBlank = true := by rfl
  have htokens : Token.tokenize ("x2" ++ "sin") =
      .ok [.identifier "x", .literal 2, .function .sin] := by rfl
  obtain ⟨-, hparts, -⟩ := tokenize_append_of_parts hletters hdigits
  obtain ⟨-, -, hblanks⟩ := tokenize_append_of_parts hletters' hdigits'
  refine ⟨⟨hletters, hdigits, hfirst, hfault, (hparts _ hfirst).2 _ hfault⟩, hletters', hdigits', ?_⟩
  exact (hblanks "\u00a0" (List.all_eq_true.mp hblank) _).mpr htokens

end SymbolicCalculus
