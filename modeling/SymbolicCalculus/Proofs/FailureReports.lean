/-
Module: SymbolicCalculus.Proofs.FailureReports
Layer: Proofs
Purpose: What the report of a failure shows. Read line by line it is the messages of the failure,
  from the outermost to the fault itself, and nothing else but layout: a word or a number before a
  message, blanks before the lines that go on with it, and the title of the causes. Messages quote
  the text that was read, which may have line breaks of its own, so it is lines that are compared
  and not whole messages.
Trusted boundary: human-reviewed spec
Main exports: isLayout, ShowsLines, Shows, Failure.showsLines_hang, Failure.showsLines_causes,
  Failure.report_shows_chain
-/
import SymbolicCalculus.CommandLine.Answer

namespace SymbolicCalculus

/-- Whether something may stand before a line of a message. It is the word that opens a report, or
    blanks, with the number of a cause if it has one. -/
def isLayout (head : List Char) : Bool :=
  head == "Error: ".toList || head.all fun c => c == ' ' || c.isDigit || c == ':'

/-- The second lines show the first ones in order, each behind some layout. Between them stand only
    blank lines and the title of the causes. -/
inductive ShowsLines : List (List Char) → List (List Char) → Prop where
  | done : ShowsLines [] []
  | behind {head line : List Char} {lines shown : List (List Char)} : isLayout head = true →
      ShowsLines lines shown → ShowsLines (line :: lines) ((head ++ line) :: shown)
  | between {line : List Char} {lines shown : List (List Char)} :
      line = [] ∨ line = "Caused by:".toList → ShowsLines lines shown →
      ShowsLines lines (line :: shown)

/-- A text shows messages in order when its lines show the lines of the messages. -/
def Shows (messages : List String) (text : String) : Prop :=
  ShowsLines (messages.flatMap fun message => message.toList.splitOn '\n')
    (text.toList.splitOn '\n')

theorem ShowsLines.append {lines shown lines' shown' : List (List Char)}
    (h : ShowsLines lines shown) (h' : ShowsLines lines' shown') :
    ShowsLines (lines ++ lines') (shown ++ shown') := by
  induction h with
  | done => exact h'
  | behind hhead _ ih => exact .behind hhead ih
  | between hline _ ih => exact .between hline ih

/-- Layout does not go over the end of a line. -/
theorem newline_not_mem_of_isLayout {head : List Char} (h : isLayout head = true) :
    '\n' ∉ head := by
  intro hmem
  rw [isLayout, Bool.or_eq_true] at h
  obtain hword | hblanks := h
  · rw [beq_iff_eq.mp hword] at hmem
    exact absurd hmem (by decide)
  · exact absurd (List.all_eq_true.mp hblanks _ hmem) (by decide)

theorem newline_not_mem_append {head line : List Char} (hhead : isLayout head = true)
    (hline : '\n' ∉ line) : '\n' ∉ head ++ line := by
  rw [List.mem_append]
  exact not_or.mpr ⟨newline_not_mem_of_isLayout hhead, hline⟩

namespace Failure

/-- Text that is hung behind some layout shows its own lines. What stands before it on its first
    line is taken along. -/
theorem showsLines_hang {margin : String} (hmargin : isLayout margin.toList = true)
    {head line : List Char} (hhead : isLayout head = true) (hline : '\n' ∉ line)
    (text : List Char) :
    ShowsLines ((line ++ text).splitOn '\n')
      ((head ++ line ++ text.flatMap (withMargin margin)).splitOn '\n') := by
  induction text generalizing head line with
  | nil =>
      have hwhole := newline_not_mem_append hhead hline
      rw [List.flatMap_nil, List.append_nil, List.append_nil, List.splitOn_eq_singleton hline,
        List.splitOn_eq_singleton hwhole]
      exact .behind hhead .done
  | cons c rest ih =>
      by_cases hc : c = '\n'
      · have hwhole := newline_not_mem_append hhead hline
        have hrest := ih hmargin List.not_mem_nil
        rw [List.append_nil] at hrest
        rw [hc, List.flatMap_cons, withMargin, if_pos rfl, List.cons_append,
          List.splitOn_append_cons_self_of_not_mem hline,
          List.splitOn_append_cons_self_of_not_mem hwhole]
        exact .behind hhead hrest
      · have hnext : '\n' ∉ line ++ [c] := by simpa [hline] using Ne.symm hc
        have hrest := ih hhead hnext
        rw [List.append_assoc, List.singleton_append] at hrest
        rw [List.flatMap_cons, withMargin, if_neg hc, ← List.append_assoc, List.append_assoc head]
        exact hrest

/-- A message that is set in is shown, and so is what the text behind it shows. -/
theorem showsLines_setIn (text : String) {head margin : String}
    (hhead : isLayout head.toList = true) (hmargin : isLayout margin.toList = true)
    {lines : List (List Char)} {rest : List Char} (h : ShowsLines lines (rest.splitOn '\n')) :
    ShowsLines (text.toList.splitOn '\n' ++ lines)
      (((setIn head margin text).toList ++ rest).splitOn '\n') := by
  have htext := showsLines_hang hmargin hhead List.not_mem_nil text.toList
  have hlist : (setIn head margin text).toList ++ rest =
      (head.toList ++ [] ++ text.toList.flatMap (withMargin margin)) ++ '\n' :: rest := by
    simp [setIn, hang]
  rw [hlist, List.splitOn_append_cons_self]
  exact htext.append h

/-- The number of a cause is layout. -/
theorem isLayout_ordinal (n : Nat) : isLayout (ordinal n).toList = true := by
  have hdigits : ∀ c ∈ Nat.toDigits 10 n, c.isDigit = true := fun _ hc =>
    Nat.isDigit_of_mem_toDigits (by decide) (by decide) hc
  rw [isLayout, Bool.or_eq_true, List.all_eq_true]
  right
  intro c hc
  rw [ordinal, String.toList_append, String.toList_ofList, List.leftpad, Nat.toList_repr] at hc
  obtain (hc | hc) | hc := (List.mem_append.mp hc).imp_left List.mem_append.mp
  · rw [List.eq_of_mem_replicate hc]
    rfl
  · rw [hdigits c hc, Bool.or_true, Bool.true_or]
  · have hcolon : ": ".toList.all (fun c => c == ' ' || c.isDigit || c == ':') = true := by decide
    exact List.all_eq_true.mp hcolon c hc

/-- Nothing is shown by an empty text. -/
theorem showsLines_nil : ShowsLines [] (([] : List Char).splitOn '\n') :=
  .between (.inl rfl) .done

/-- Causes are shown in order, whatever number the first of them has. -/
theorem showsLines_causes (causes : List String) (first : Nat) :
    ShowsLines (causes.flatMap fun cause => cause.toList.splitOn '\n')
      ((String.join ((causes.zipIdx first).map fun (cause, n) =>
        setIn (ordinal n) "       " cause)).toList.splitOn '\n') := by
  have hmargin : isLayout "       ".toList = true := by decide
  induction causes generalizing first with
  | nil => exact showsLines_nil
  | cons cause rest ih =>
      rw [List.zipIdx_cons, List.map_cons, String.join_cons, String.toList_append,
        List.flatMap_cons]
      exact showsLines_setIn cause (isLayout_ordinal first) hmargin (ih (first + 1))

/-- The title of the causes shows nothing by itself. -/
theorem showsLines_title {lines : List (List Char)} {text : String}
    (h : ShowsLines lines (text.toList.splitOn '\n')) :
    ShowsLines lines (("\nCaused by:\n" ++ text).toList.splitOn '\n') := by
  have hlist : ("\nCaused by:\n" ++ text).toList =
      [] ++ '\n' :: ("Caused by:".toList ++ '\n' :: text.toList) := by
    simp
  have hword : '\n' ∉ "Caused by:".toList := by decide
  rw [hlist, List.splitOn_append_cons_self_of_not_mem List.not_mem_nil,
    List.splitOn_append_cons_self_of_not_mem hword]
  exact .between (.inl rfl) (.between (.inr rfl) h)

/-- The causes stand under their title, and without causes there is no title. -/
theorem showsLines_causeLines (causes : List String) :
    ShowsLines (causes.flatMap fun cause => cause.toList.splitOn '\n')
      ((causeLines causes).toList.splitOn '\n') := by
  cases causes with
  | nil => exact showsLines_nil
  | cons cause rest =>
      cases rest with
      | nil =>
          have hmargin : isLayout "    ".toList = true := by decide
          have hcause := showsLines_setIn cause hmargin hmargin showsLines_nil
          rw [List.append_nil, List.append_nil] at hcause
          rw [List.flatMap_cons, List.flatMap_nil, List.append_nil]
          exact showsLines_title hcause
      | cons next others => exact showsLines_title (showsLines_causes (cause :: next :: others) 0)

/-- The report of a failure shows its messages, the outermost first. -/
theorem report_shows_chain (failure : Failure) : Shows failure.chain failure.report := by
  have hhead : isLayout "Error: ".toList = true := by decide
  have hmargin : isLayout "".toList = true := by decide
  rw [Shows, chain, report, List.flatMap_cons, String.toList_append]
  exact showsLines_setIn failure.headline hhead hmargin (showsLines_causeLines failure.causes)

/-- A text with a line break of its own, and a fault with a single cause. -/
example :
    (Failure.parsing "x\n+" (.missingOperand (.operator .add))).report =
        "Error: Could not parse expression 'x\n+'\n\nCaused by:\n    0: Malformed expression\n" ++
          "    1: operator + is missing an operand\n" ∧
      (Failure.plain .emptyExpression).report =
        "Error: Malformed expression\n\nCaused by:\n    the expression is empty\n" := by
  decide +kernel

end Failure

end SymbolicCalculus
