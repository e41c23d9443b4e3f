/-
Module: SymbolicCalculus.Proofs.BracketedForms
Layer: Proofs
Purpose: The bracketed form of an expression is the form of no other. Operands have a single blank
  between them, and names may hold blanks, brackets and quotes of their own, so this rests on the
  escapes: a character and what follows it can be told from its escaped text, and no escaped text
  begins with a quote, so a quoted name ends at the first quote that is not escaped. Then every form
  but that of an integer shows its own end, and an integer ends where no digit follows. Nothing is
  asked of the names, which may hold any characters.
Trusted boundary: none
Main exports: Text.toDigits_sixteen_injective, Text.EscapesTo, Text.escape_append_inj,
  Text.quote_append_inj, Expr.inspect_append_inj, inspect_eq_inspect_iff
-/
import Mathlib.Data.List.Nodup
import Mathlib.Tactic.SplitIfs
import SymbolicCalculus.Expr.Inspect
import SymbolicCalculus.Proofs.LineDecoding

namespace SymbolicCalculus

namespace Text

/-! ### Numbers in hexadecimal digits -/

theorem digitChar_inj {a b : Nat} (ha : a < 16) (hb : b < 16) (h : a.digitChar = b.digitChar) :
    a = b := by
  have hdigits : ∀ a b : Fin 16, a.val.digitChar = b.val.digitChar → a = b := by decide
  exact congrArg Fin.val (hdigits ⟨a, ha⟩ ⟨b, hb⟩ h)

/-- A number can be told from its hexadecimal digits. -/
theorem toDigits_sixteen_injective {a b : Nat} (h : Nat.toDigits 16 a = Nat.toDigits 16 b) :
    a = b := by
  induction a using Nat.strongRecOn generalizing b with
  | ind a ih =>
      rw [Nat.toDigits_eq_if (by decide), Nat.toDigits_eq_if (n := b) (by decide)] at h
      split at h
      · rename_i ha
        split at h
        · rename_i hb
          exact digitChar_inj ha hb (List.singleton_inj.mp h)
        · exact absurd (List.append_eq_singleton_iff.mp h.symm) (by simp)
      · rename_i ha
        split at h
        · exact absurd (List.append_eq_singleton_iff.mp h) (by simp)
        · obtain ⟨hdigits, hlast⟩ := List.append_singleton_inj.mp h
          have hdiv := ih (a / 16) (by omega) hdigits
          have hmod := digitChar_inj (Nat.mod_lt a (by decide)) (Nat.mod_lt b (by decide)) hlast
          omega

/-- The brace that closes an escaped number is no digit. -/
theorem ne_brace_of_mem_toDigits {n : Nat} : ∀ c ∈ Nat.toDigits 16 n, (c != '\x7d') = true := by
  induction n using Nat.strongRecOn with
  | ind n ih =>
      have hdigit : ∀ m : Nat, (m.digitChar != '\x7d') = true := fun m =>
        bne_iff_ne.mpr (Nat.digitChar_ne _ (by decide))
      intro c hc
      rw [Nat.toDigits_eq_if (by decide)] at hc
      split at hc
      · rw [List.mem_singleton.mp hc]
        exact hdigit n
      · obtain hc | hc := List.mem_append.mp hc
        · exact ih (n / 16) (by omega) c hc
        · rw [List.mem_singleton.mp hc]
          exact hdigit _

/-! ### One character -/

/-- The marks that stand for a character after a backslash, each with its character. -/
def shortEscapes : List (Char × Char) :=
  [('"', '"'), ('\\', '\\'), ('0', '\x00'), ('t', '\t'), ('n', '\n'), ('r', '\r')]

/-- The three ways to write a character inside quotes: as itself, by a mark or by its number. -/
inductive EscapesTo : Char → List Char → Prop where
  | itself {c : Char} : c ≠ '\\' → c ≠ '"' → EscapesTo c [c]
  | mark {mark c : Char} : (mark, c) ∈ shortEscapes → EscapesTo c ['\\', mark]
  | number (c : Char) : EscapesTo c (escapeNumber c)

theorem escapesTo_escape (c : Char) : EscapesTo c (escape c) := by
  unfold escape
  split_ifs with hquoted hc hc hc hc
  · rcases hquoted with rfl | rfl
    · exact .mark (by simp [shortEscapes])
    · exact .mark (by simp [shortEscapes])
  · exact .mark (by simp [shortEscapes, hc])
  · exact .mark (by simp [shortEscapes, hc])
  · exact .mark (by simp [shortEscapes, hc])
  · exact .mark (by simp [shortEscapes, hc])
  · exact .itself (fun hc => hquoted (.inr hc)) (fun hc => hquoted (.inl hc))
  · exact .number c

/-- No two characters have the same mark, and none has the mark of a number. -/
theorem shortEscapes_marks :
    (shortEscapes.map Prod.fst).Nodup ∧ 'u' ∉ shortEscapes.map Prod.fst := by
  decide

theorem eq_of_mem_shortEscapes {mark c c' : Char} (h : (mark, c) ∈ shortEscapes)
    (h' : (mark, c') ∈ shortEscapes) : c = c' :=
  congrArg Prod.snd (List.inj_on_of_nodup_map shortEscapes_marks.1 h h' rfl)

theorem ne_of_mem_shortEscapes {mark c : Char} (h : (mark, c) ∈ shortEscapes) : mark ≠ 'u' := by
  rintro rfl
  exact shortEscapes_marks.2 (List.mem_map_of_mem h)

/-- A character that is written by its number ends at the brace. -/
theorem escapeNumber_append_inj {c c' : Char} {rest rest' : List Char}
    (h : escapeNumber c ++ rest = escapeNumber c' ++ rest') : c = c' ∧ rest = rest' := by
  simp only [escapeNumber, List.cons_append, List.append_assoc, List.cons.injEq, true_and,
    List.nil_append] at h
  obtain ⟨hdigits, hrest⟩ := Token.word_append_inj (p := (· != '\x7d')) ne_brace_of_mem_toDigits
    ne_brace_of_mem_toDigits (by simp) (by simp) h
  exact ⟨Char.toNat_inj.mp (toDigits_sixteen_injective hdigits), (List.cons.inj hrest).2⟩

/-- A character can be told from an escaped text, and so can what follows it. -/
theorem EscapesTo.append_inj {c c' : Char} {text text' rest rest' : List Char}
    (hc : EscapesTo c text) (hc' : EscapesTo c' text') (h : text ++ rest = text' ++ rest') :
    c = c' ∧ rest = rest' := by
  cases hc with
  | itself hne _ =>
      cases hc' with
      | itself _ _ => exact List.cons.inj h
      | mark _ => exact absurd (List.cons.inj h).1 hne
      | number => exact absurd (List.cons.inj h).1 hne
  | mark hmark =>
      cases hc' with
      | itself hne _ => exact absurd (List.cons.inj h).1.symm hne
      | mark hmark' =>
          obtain ⟨rfl, hrest⟩ := List.cons.inj (List.cons.inj h).2
          exact ⟨eq_of_mem_shortEscapes hmark hmark', hrest⟩
      | number =>
          exact absurd (List.cons.inj (List.cons.inj h).2).1 (ne_of_mem_shortEscapes hmark)
  | number =>
      cases hc' with
      | itself hne _ => exact absurd (List.cons.inj h).1.symm hne
      | mark hmark =>
          exact absurd (List.cons.inj (List.cons.inj h).2).1.symm (ne_of_mem_shortEscapes hmark)
      | number => exact escapeNumber_append_inj h

/-- A text inside quotes does not begin with a quote, unless it is at its end. -/
theorem EscapesTo.append_ne {c : Char} {text : List Char} (h : EscapesTo c text)
    (rest rest' : List Char) : text ++ rest ≠ '"' :: rest' := by
  intro heq
  cases h with
  | itself _ hne => exact hne (List.cons.inj heq).1
  | mark _ => cases heq
  | number => cases heq

/-! ### Texts between quotes -/

/-- A text between quotes ends at the first quote that is not escaped. -/
theorem flatMap_escape_append_inj {text text' rest rest' : List Char}
    (h : text.flatMap escape ++ '"' :: rest = text'.flatMap escape ++ '"' :: rest') :
    text = text' ∧ rest = rest' := by
  induction text generalizing text' with
  | nil =>
      cases text' with
      | nil => exact ⟨rfl, (List.cons.inj h).2⟩
      | cons c' others' =>
          rw [List.flatMap_cons, List.append_assoc] at h
          exact absurd h.symm ((escapesTo_escape c').append_ne _ _)
  | cons c others ih =>
      cases text' with
      | nil =>
          rw [List.flatMap_cons, List.append_assoc] at h
          exact absurd h ((escapesTo_escape c).append_ne _ _)
      | cons c' others' =>
          rw [List.flatMap_cons, List.flatMap_cons, List.append_assoc, List.append_assoc] at h
          obtain ⟨rfl, hothers⟩ := (escapesTo_escape c).append_inj (escapesTo_escape c') h
          obtain ⟨rfl, hrest⟩ := ih hothers
          exact ⟨rfl, hrest⟩

theorem toList_quote (text : String) :
    (quote text).toList = '"' :: (text.toList.flatMap escape ++ ['"']) := by
  simp [quote]

/-- A quoted text can be told from what follows it, whatever that is. -/
theorem quote_append_inj {text text' : String} {rest rest' : List Char}
    (h : (quote text).toList ++ rest = (quote text').toList ++ rest') :
    text = text' ∧ rest = rest' := by
  simp only [toList_quote, List.cons_append, List.append_assoc, List.nil_append, List.cons.injEq,
    true_and] at h
  obtain ⟨htext, hrest⟩ := flatMap_escape_append_inj h
  exact ⟨String.toList_inj.mp htext, hrest⟩

end Text

/-! ### The names of operations -/

/-- The names of operators and functions are different words. -/
theorem nodup_labels :
    ([BinaryOp.add, .subtract, .multiply, .divide, .power].map BinaryOp.label ++
      ElementaryFunction.all.map ElementaryFunction.label).Nodup := by
  decide

theorem BinaryOp.mem_all (op : BinaryOp) : op ∈ [add, subtract, multiply, divide, power] := by
  cases op <;> simp

theorem BinaryOp.label_injective : Function.Injective label := fun op op' h =>
  List.inj_on_of_nodup_map (List.nodup_append.mp nodup_labels).1 op.mem_all op'.mem_all h

theorem ElementaryFunction.label_injective : Function.Injective label := fun f f' h =>
  List.inj_on_of_nodup_map (List.nodup_append.mp nodup_labels).2.1 f.mem_all f'.mem_all h

theorem BinaryOp.label_ne_label (op : BinaryOp) (f : ElementaryFunction) : op.label ≠ f.label :=
  (List.nodup_append.mp nodup_labels).2.2 _ (List.mem_map_of_mem op.mem_all) _
    (List.mem_map_of_mem f.mem_all)

theorem BinaryOp.isAlpha_of_mem_label {op : BinaryOp} {c : Char} (h : c ∈ op.label.toList) :
    c.isAlpha = true := by
  have hall : op.label.toList.all Char.isAlpha = true := by cases op <;> decide
  exact List.all_eq_true.mp hall c h

theorem ElementaryFunction.isAlpha_of_mem_label {f : ElementaryFunction} {c : Char}
    (h : c ∈ f.label.toList) : c.isAlpha = true := by
  have hall : f.label.toList.all Char.isAlpha = true := by cases f <;> decide
  exact List.all_eq_true.mp hall c h

namespace Expr

/-! ### Whole forms -/

theorem toList_inspect_identifier (name : String) :
    (identifier name).inspect.toList = '"' :: (name.toList.flatMap Text.escape ++ ['"']) :=
  Text.toList_quote name

theorem toList_inspect_binary (op : BinaryOp) (left right : Expr) :
    (binary op left right).inspect.toList =
      '(' :: (op.label.toList ++ ' ' :: (left.inspect.toList ++ ' ' :: (right.inspect.toList ++
        [')']))) := by
  simp [inspect, String.toList_append]

theorem toList_inspect_call (f : ElementaryFunction) (argument : Expr) :
    (call f argument).inspect.toList =
      '(' :: (f.label.toList ++ ' ' :: (argument.inspect.toList ++ [')'])) := by
  simp [inspect, String.toList_append]

/-- The name of an operation ends at the blank behind it. -/
theorem label_append_inj {label label' : String} {rest rest' : List Char}
    (hlabel : ∀ c ∈ label.toList, c.isAlpha = true)
    (hlabel' : ∀ c ∈ label'.toList, c.isAlpha = true)
    (h : label.toList ++ ' ' :: rest = label'.toList ++ ' ' :: rest') :
    label = label' ∧ rest = rest' := by
  obtain ⟨htext, hrest⟩ := Token.word_append_inj hlabel hlabel' (by simp) (by simp) h
  exact ⟨String.toList_inj.mp htext, (List.cons.inj hrest).2⟩

/-- An integer begins with its sign or a digit. -/
theorem literal_append_ne_cons {value : Int64} {first : Char} (hsign : first ≠ '-')
    (hdigit : first.isDigit = false) (rest rest' : List Char) :
    (literal value).inspect.toList ++ rest ≠ first :: rest' := by
  have htext : (literal value).inspect.toList =
      if value.toInt < 0 then '-' :: Nat.toDigits 10 value.toInt.natAbs
      else Nat.toDigits 10 value.toInt.toNat := Token.toList_text_literal value
  intro h
  rw [htext] at h
  split at h
  · exact hsign (List.cons.inj h).1.symm
  · cases hdigits : Nat.toDigits 10 value.toInt.toNat with
    | nil => exact Nat.toDigits_ne_nil hdigits
    | cons c others =>
        have hc : c.isDigit = true := Nat.isDigit_of_mem_toDigits (by decide) (by decide)
          (hdigits ▸ List.mem_cons_self)
        rw [hdigits] at h
        rw [(List.cons.inj h).1, hdigit] at hc
        cases hc

/-- An integer begins as no other form does. -/
theorem literal_append_ne {value : Int64} {e : Expr} (he : ∀ other, e ≠ literal other)
    (rest rest' : List Char) :
    (literal value).inspect.toList ++ rest ≠ e.inspect.toList ++ rest' := by
  cases e with
  | literal other => exact absurd rfl (he other)
  | identifier name =>
      rw [toList_inspect_identifier]
      exact literal_append_ne_cons (by decide) (by decide) rest _
  | binary op left right =>
      rw [toList_inspect_binary]
      exact literal_append_ne_cons (by decide) (by decide) rest _
  | call f argument =>
      rw [toList_inspect_call]
      exact literal_append_ne_cons (by decide) (by decide) rest _

theorem literal_append_inj {value value' : Int64} {rest rest' : List Char}
    (hrest : ∀ c ∈ rest.head?, c.isAlphanum = false)
    (hrest' : ∀ c ∈ rest'.head?, c.isAlphanum = false)
    (h : (literal value).inspect.toList ++ rest = (literal value').inspect.toList ++ rest') :
    literal value = literal value' ∧ rest = rest' := by
  have htokens : (Token.literal value).text.toList ++ rest =
      (Token.literal value').text.toList ++ rest' := h
  obtain ⟨hvalue, hrests⟩ :=
    Token.text_append_inj rfl rfl (fun _ => hrest) (fun _ => hrest') htokens
  cases hvalue
  exact ⟨rfl, hrests⟩

/-- A name begins with a quote and an operation with a bracket. -/
theorem identifier_append_ne {name : String} {e : Expr} (he : e.isAtom = false)
    (rest rest' : List Char) :
    (identifier name).inspect.toList ++ rest ≠ e.inspect.toList ++ rest' := by
  rw [toList_inspect_identifier]
  intro h
  cases e with
  | literal _ | identifier _ => cases he
  | binary op left right =>
      rw [toList_inspect_binary] at h
      exact absurd (List.cons.inj h).1 (by decide)
  | call f argument =>
      rw [toList_inspect_call] at h
      exact absurd (List.cons.inj h).1 (by decide)

/-- An operation begins with the name of its operator and a call with that of its function. -/
theorem binary_append_ne {op : BinaryOp} {f : ElementaryFunction} {left right argument : Expr}
    (rest rest' : List Char) :
    (binary op left right).inspect.toList ++ rest ≠ (call f argument).inspect.toList ++ rest' := by
  intro h
  rw [toList_inspect_binary, toList_inspect_call] at h
  simp only [List.cons_append, List.append_assoc, List.cons.injEq, true_and] at h
  obtain ⟨hlabel, -⟩ := label_append_inj (fun _ => BinaryOp.isAlpha_of_mem_label)
    (fun _ => ElementaryFunction.isAlpha_of_mem_label) h
  exact op.label_ne_label f hlabel

/-- A form can be told from what follows it, as long as no letter or digit follows. -/
theorem inspect_append_inj {e e' : Expr} {rest rest' : List Char}
    (hrest : ∀ c ∈ rest.head?, c.isAlphanum = false)
    (hrest' : ∀ c ∈ rest'.head?, c.isAlphanum = false)
    (h : e.inspect.toList ++ rest = e'.inspect.toList ++ rest') : e = e' ∧ rest = rest' := by
  -- behind an operand stands a blank or a bracket
  have hblank : ∀ {more : List Char}, ∀ c ∈ (' ' :: more).head?, c.isAlphanum = false := by simp
  have hbracket : ∀ {more : List Char}, ∀ c ∈ (')' :: more).head?, c.isAlphanum = false := by simp
  induction e generalizing e' rest rest' with
  | literal value =>
      cases e' with
      | literal value' => exact literal_append_inj hrest hrest' h
      | identifier _ | binary _ _ _ | call _ _ => exact absurd h (literal_append_ne (by simp) _ _)
  | identifier name =>
      cases e' with
      | literal _ => exact absurd h.symm (literal_append_ne (by simp) _ _)
      | identifier name' =>
          obtain ⟨rfl, hrests⟩ := Text.quote_append_inj h
          exact ⟨rfl, hrests⟩
      | binary _ _ _ | call _ _ => exact absurd h (identifier_append_ne rfl _ _)
  | binary op left right ihl ihr =>
      cases e' with
      | literal _ => exact absurd h.symm (literal_append_ne (by simp) _ _)
      | identifier _ => exact absurd h.symm (identifier_append_ne rfl _ _)
      | call _ _ => exact absurd h (binary_append_ne _ _)
      | binary op' left' right' =>
          rw [toList_inspect_binary, toList_inspect_binary] at h
          simp only [List.cons_append, List.append_assoc, List.cons.injEq, true_and] at h
          obtain ⟨hop, hoperands⟩ := label_append_inj (fun _ => BinaryOp.isAlpha_of_mem_label)
            (fun _ => BinaryOp.isAlpha_of_mem_label) h
          obtain ⟨rfl, hright⟩ := ihl hblank hblank hoperands
          obtain ⟨rfl, hend⟩ := ihr hbracket hbracket (List.cons.inj hright).2
          rw [BinaryOp.label_injective hop]
          exact ⟨rfl, (List.cons.inj hend).2⟩
  | call f argument ih =>
      cases e' with
      | literal _ => exact absurd h.symm (literal_append_ne (by simp) _ _)
      | identifier _ => exact absurd h.symm (identifier_append_ne rfl _ _)
      | binary _ _ _ => exact absurd h.symm (binary_append_ne _ _)
      | call f' argument' =>
          rw [toList_inspect_call, toList_inspect_call] at h
          simp only [List.cons_append, List.append_assoc, List.cons.injEq, true_and] at h
          obtain ⟨hf, hargument⟩ := label_append_inj
            (fun _ => ElementaryFunction.isAlpha_of_mem_label)
            (fun _ => ElementaryFunction.isAlpha_of_mem_label) h
          obtain ⟨rfl, hend⟩ := ih hbracket hbracket hargument
          rw [ElementaryFunction.label_injective hf]
          exact ⟨rfl, (List.cons.inj hend).2⟩

end Expr

/-- Two expressions have the same bracketed form only if they are the same, whatever their integers
    are and whatever characters their names hold. -/
theorem inspect_eq_inspect_iff (e e' : Expr) : e.inspect = e'.inspect ↔ e = e' := by
  constructor
  · intro h
    have htext : e.inspect.toList ++ [] = e'.inspect.toList ++ [] := by rw [h]
    exact (Expr.inspect_append_inj (by simp) (by simp) htext).1
  · rintro rfl
    rfl

/-- A name may look like the rest of a form. -/
example : (Expr.call .sin (.identifier "a\" \"b")).inspect = "(Sine \"a\\\" \\\"b\")" := by
  decide

end SymbolicCalculus
