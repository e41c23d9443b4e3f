/-
Module: SymbolicCalculus.Proofs.Drawings
Layer: Proofs
Purpose: What a drawing shows. Every node has an address, which says at each step down from the root
  whether it goes to the last operand. A drawing has one line for every address, in the order of the
  addresses, where a node comes before its operands and these from left to right. A line tells of
  every node above whether a sibling of it is still to come, then of the node itself, and then shows
  the node. The texts of the nodes in this order can be those of one expression only, since each
  tells how many operands follow it, so a drawing shows no other expression.
Trusted boundary: human-reviewed spec
Main exports: Expr.nodeAt?, NodePlace, Expr.places, endsBranch, NodePlace.line, Expr.mem_places_iff,
  Expr.pairwise_places, Expr.drawingLines_eq, Expr.splitOn_drawing, Expr.subtreeLines_append_inj,
  Expr.eq_of_drawing_eq, drawing_shows_expression
-/
import SymbolicCalculus.Proofs.LineDecoding
import SymbolicCalculus.Proofs.TreePrinting
import Mathlib.Data.List.Infix

namespace SymbolicCalculus

/-! ### The places of nodes -/

/-- The node at an address. Each step goes to the last operand or to the one before it, which only
    an operation has. -/
def Expr.nodeAt? : Expr → List Bool → Option Expr
  | e, [] => some e
  | .binary _ left _, false :: address => left.nodeAt? address
  | .binary _ _ right, true :: address => right.nodeAt? address
  | .call _ argument, true :: address => argument.nodeAt? address
  | _, _ => none

/-- A node with its address. -/
structure NodePlace where
  address : List Bool
  node : Expr
deriving DecidableEq, Repr

/-- The places below an address: that of the expression there, and then those of its operands. -/
def Expr.places (address : List Bool) (e : Expr) : List NodePlace :=
  ⟨address, e⟩ ::
    match e with
    | .literal _ | .identifier _ => []
    | .binary _ left right =>
        left.places (address ++ [false]) ++ right.places (address ++ [true])
    | .call _ argument => argument.places (address ++ [true])

/-- Whether no sibling of the node at an address is still to come. The root has no sibling. -/
def endsBranch (address : List Bool) : Bool :=
  address.getLast? != some false

/-- What stands on a line before the branch of a node: a piece for each node above it. -/
def marginAt (address : List Bool) : String :=
  String.join (address.inits.dropLast.map fun above => Expr.stem (endsBranch above))

/-- The line of a node. -/
def NodePlace.line (place : NodePlace) : String :=
  marginAt place.address ++ Expr.branch (endsBranch place.address) ++ place.node.nodeText

namespace Expr

variable {address : List Bool} {e : Expr} {place : NodePlace}

/-- A node that a path leads to has a place, whose address is the path behind the root's. -/
theorem mem_places_of_nodeAt? {path : List Bool} {node : Expr} (h : e.nodeAt? path = some node)
    (address : List Bool) : ⟨address ++ path, node⟩ ∈ e.places address := by
  induction path generalizing address e with
  | nil =>
      obtain rfl : e = node := by simpa [nodeAt?] using h
      rw [List.append_nil, places.eq_def]
      exact List.mem_cons_self
  | cons last path ih =>
      have hbelow : ∀ {operand : Expr}, operand.nodeAt? path = some node →
          ⟨address ++ last :: path, node⟩ ∈ operand.places (address ++ [last]) := by
        intro operand hoperand
        have hmem := ih hoperand (address ++ [last])
        rwa [List.append_assoc, List.singleton_append] at hmem
      cases e with
      | literal _ | identifier _ => cases last <;> cases h
      | binary op left right =>
          rw [places, List.mem_cons, List.mem_append]
          cases last with
          | false => exact .inr (.inl (hbelow h))
          | true => exact .inr (.inr (hbelow h))
      | call f argument =>
          rw [places, List.mem_cons]
          cases last with
          | false => cases h
          | true => exact .inr (hbelow h)

/-- Every place has an address that a path leads to, and its node stands there. -/
theorem exists_path_of_mem_places (h : place ∈ e.places address) :
    ∃ path, place.address = address ++ path ∧ e.nodeAt? path = some place.node := by
  induction e generalizing address with
  | literal value =>
      obtain rfl := List.mem_singleton.mp h
      exact ⟨[], (List.append_nil _).symm, rfl⟩
  | identifier name =>
      obtain rfl := List.mem_singleton.mp h
      exact ⟨[], (List.append_nil _).symm, rfl⟩
  | binary op left right ihl ihr =>
      rw [places, List.mem_cons, List.mem_append] at h
      obtain rfl | hleft | hright := h
      · exact ⟨[], (List.append_nil _).symm, rfl⟩
      · obtain ⟨path, haddress, hnode⟩ := ihl hleft
        exact ⟨false :: path, by simpa using haddress, hnode⟩
      · obtain ⟨path, haddress, hnode⟩ := ihr hright
        exact ⟨true :: path, by simpa using haddress, hnode⟩
  | call f argument ih =>
      rw [places, List.mem_cons] at h
      obtain rfl | hargument := h
      · exact ⟨[], (List.append_nil _).symm, rfl⟩
      · obtain ⟨path, haddress, hnode⟩ := ih hargument
        exact ⟨true :: path, by simpa using haddress, hnode⟩

/-- The places of a whole expression are its nodes with their addresses. -/
theorem mem_places_iff : place ∈ e.places [] ↔ e.nodeAt? place.address = some place.node := by
  constructor
  · intro h
    obtain ⟨path, haddress, hnode⟩ := exists_path_of_mem_places h
    rwa [haddress]
  · intro h
    exact mem_places_of_nodeAt? h []

/-- What stands below an operand stands behind its address. -/
theorem lt_of_mem_places {last : Bool} (h : place ∈ e.places (address ++ [last])) :
    address < place.address := by
  obtain ⟨path, haddress, -⟩ := exists_path_of_mem_places h
  have hbelow : address ++ [] < address ++ last :: path :=
    List.append_left_lt (List.nil_lt_cons last path)
  rwa [List.append_nil, ← List.singleton_append, ← List.append_assoc, ← haddress] at hbelow

/-- A node comes before its operands, and these come from left to right. -/
theorem pairwise_places (address : List Bool) (e : Expr) :
    (e.places address).Pairwise (fun place later => place.address < later.address) := by
  induction e generalizing address with
  | literal value => exact List.pairwise_singleton _ _
  | identifier name => exact List.pairwise_singleton _ _
  | binary op left right ihl ihr =>
      rw [places, List.pairwise_cons, List.pairwise_append]
      refine ⟨fun place hplace => ?_, ihl _, ihr _, fun place hplace later hlater => ?_⟩
      · obtain hleft | hright := List.mem_append.mp hplace
        · exact lt_of_mem_places hleft
        · exact lt_of_mem_places hright
      · obtain ⟨path, hpath, -⟩ := exists_path_of_mem_places hplace
        obtain ⟨path', hpath', -⟩ := exists_path_of_mem_places hlater
        rw [hpath, hpath', List.append_assoc, List.append_assoc]
        apply List.append_left_lt
        exact List.cons_lt_cons_iff.mpr (.inl (by decide))
  | call f argument ih =>
      rw [places, List.pairwise_cons]
      exact ⟨fun place hplace => lt_of_mem_places hplace, ih _⟩

/-! ### The lines of a drawing -/

theorem endsBranch_concat (address : List Bool) (last : Bool) :
    endsBranch (address ++ [last]) = last := by
  rw [endsBranch, List.getLast?_concat]
  cases last <;> rfl

theorem inits_concat (address : List Bool) (last : Bool) :
    (address ++ [last]).inits = address.inits ++ [address ++ [last]] := by
  rw [List.inits_append]
  rfl

/-- The margin of an operand is that of its node with the stem of the node's branch. -/
theorem marginAt_concat (address : List Bool) (last : Bool) :
    marginAt (address ++ [last]) = marginAt address ++ stem (endsBranch address) := by
  have hself : address.inits = address.inits.dropLast ++ [address] := by
    obtain rfl | ⟨above, step, rfl⟩ := address.eq_nil_or_concat'
    · rfl
    · rw [inits_concat, List.dropLast_concat]
  have hpiece : ∀ piece : String, String.join [piece] = piece := fun piece => by
    rw [String.join_cons, String.join_nil, String.append_empty]
  rw [marginAt, inits_concat, List.dropLast_concat, hself, List.map_append, String.join_append,
    List.map_singleton, hpiece, marginAt]

/-- The lines of a subtree are those of its places. -/
theorem subtreeLines_eq (address : List Bool) (e : Expr) :
    e.subtreeLines (marginAt address) (endsBranch address) =
      (e.places address).map NodePlace.line := by
  induction e generalizing address with
  | literal value => rfl
  | identifier name => rfl
  | binary op left right ihl ihr =>
      have hleft := ihl (address ++ [false])
      have hright := ihr (address ++ [true])
      rw [marginAt_concat, endsBranch_concat] at hleft hright
      rw [subtreeLines, places, List.map_cons, List.map_append, hleft, hright]
      rfl
  | call f argument ih =>
      have hargument := ih (address ++ [true])
      rw [marginAt_concat, endsBranch_concat] at hargument
      rw [subtreeLines, places, List.map_cons, hargument]
      rfl

/-- A drawing is its title and the lines of all places. -/
theorem drawingLines_eq (e : Expr) :
    e.drawingLines = "expression" :: (e.places []).map NodePlace.line := by
  rw [← subtreeLines_eq]
  rfl

/-- A long way down is a way to a node and then a way from there. -/
theorem nodeAt?_append (e : Expr) (above path : List Bool) :
    e.nodeAt? (above ++ path) = (e.nodeAt? above).bind (·.nodeAt? path) := by
  induction above generalizing e with
  | nil => cases e <;> rfl
  | cons last above ih =>
      cases e with
      | literal _ | identifier _ => cases last <;> rfl
      | binary op left right =>
          cases last with
          | false => exact ih left
          | true => exact ih right
      | call f argument =>
          cases last with
          | false => rfl
          | true => exact ih argument

/-- Behind an operand that is not the last one there is another. -/
theorem exists_sibling {above : List Bool} {node : Expr}
    (h : e.nodeAt? (above ++ [false]) = some node) :
    ∃ sibling, e.nodeAt? (above ++ [true]) = some sibling := by
  rw [nodeAt?_append] at h ⊢
  obtain ⟨parent, habove, hnode⟩ := Option.bind_eq_some_iff.mp h
  rw [habove]
  cases parent with
  | literal _ | identifier _ | call _ _ => cases hnode
  | binary op left right => exact ⟨right, by cases right <;> rfl⟩

/-- The branch of a node goes on exactly when a sibling stands behind it. -/
theorem endsBranch_eq_false_iff (h : place ∈ e.places []) :
    endsBranch place.address = false ↔
      ∃ above sibling, place.address = above ++ [false] ∧
        e.nodeAt? (above ++ [true]) = some sibling := by
  constructor
  · intro hbranch
    have hlast : place.address.getLast? = some false := by simpa [endsBranch] using hbranch
    obtain ⟨above, haddress⟩ := List.getLast?_eq_some_iff.mp hlast
    have hnode := mem_places_iff.mp h
    rw [haddress] at hnode
    obtain ⟨sibling, hsibling⟩ := exists_sibling hnode
    exact ⟨above, sibling, haddress, hsibling⟩
  · rintro ⟨above, sibling, haddress, -⟩
    rw [haddress, endsBranch_concat]

/-! ### The text of a drawing -/

/-- What a node shows of itself, as a token. -/
def label : Expr → Token
  | .literal value => .literal value
  | .identifier name => .identifier name
  | .binary op _ _ => .operator op
  | .call f _ => .function f

theorem nodeText_eq (e : Expr) : e.nodeText = e.label.text := by
  cases e <;> rfl

/-- Only a name can bring a line break into the text of a node. -/
theorem newline_not_mem_nodeText (hnames : ∀ name, e.mentions name = true → '\n' ∉ name.toList) :
    '\n' ∉ e.nodeText.toList := by
  cases e with
  | literal value =>
      have hdigits : ∀ n : Nat, '\n' ∉ Nat.toDigits 10 n := fun n hmem => by
        have hdigit := Nat.isDigit_of_mem_toDigits (by decide) (by decide) hmem
        cases hdigit
      rw [nodeText, Token.toList_text_literal]
      split
      · simp [hdigits]
      · exact hdigits _
  | identifier name => exact hnames name (by rw [mentions, beq_self_eq_true])
  | binary op left right =>
      rw [nodeText]
      cases op <;> decide
  | call f argument =>
      intro hmem
      have hletter := f.isAlpha_of_mem_name hmem
      cases hletter

theorem newline_not_mem_stem_branch (last : Bool) :
    '\n' ∉ (stem last).toList ∧ '\n' ∉ (branch last).toList := by
  cases last <;> decide

/-- The line of a node adds to the margin only its branch and its text. -/
theorem newline_not_mem_line {margin : String} (last : Bool)
    (hnames : ∀ name, e.mentions name = true → '\n' ∉ name.toList)
    (hmargin : '\n' ∉ margin.toList) :
    '\n' ∉ (margin ++ branch last ++ e.nodeText).toList := by
  rw [String.toList_append, String.toList_append, List.mem_append, List.mem_append, not_or, not_or]
  exact ⟨⟨hmargin, (newline_not_mem_stem_branch last).2⟩, newline_not_mem_nodeText hnames⟩

theorem newline_not_mem_margin {margin : String} (last : Bool) (hmargin : '\n' ∉ margin.toList) :
    '\n' ∉ (margin ++ stem last).toList := by
  rw [String.toList_append, List.mem_append, not_or]
  exact ⟨hmargin, (newline_not_mem_stem_branch last).1⟩

/-- Without line breaks in names, no line of a drawing has one. -/
theorem newline_not_mem_subtreeLines {margin line : String} {last : Bool}
    (hnames : ∀ name, e.mentions name = true → '\n' ∉ name.toList)
    (hmargin : '\n' ∉ margin.toList) (hmem : line ∈ e.subtreeLines margin last) :
    '\n' ∉ line.toList := by
  induction e generalizing margin last with
  | literal value =>
      rw [List.mem_singleton.mp hmem]
      exact newline_not_mem_line last hnames hmargin
  | identifier name =>
      rw [List.mem_singleton.mp hmem]
      exact newline_not_mem_line last hnames hmargin
  | binary op left right ihl ihr =>
      obtain ⟨hnamesl, hnamesr⟩ := forall_mentions_binary.mp hnames
      rw [subtreeLines, List.mem_cons, List.mem_append] at hmem
      obtain rfl | hleft | hright := hmem
      · exact newline_not_mem_line last hnames hmargin
      · exact ihl hnamesl (newline_not_mem_margin last hmargin) hleft
      · exact ihr hnamesr (newline_not_mem_margin last hmargin) hright
  | call f argument ih =>
      have hargument := forall_mentions_call.mp hnames
      rw [subtreeLines, List.mem_cons] at hmem
      obtain rfl | hbelow := hmem
      · exact newline_not_mem_line last hnames hmargin
      · exact ih hargument (newline_not_mem_margin last hmargin) hbelow

/-- A text of lines that are each ended is split into them, and nothing is left behind the last. -/
theorem splitOn_join {lines : List String} (h : ∀ line ∈ lines, '\n' ∉ line.toList) :
    (String.join (lines.map (· ++ "\n"))).toList.splitOn '\n' =
      lines.map String.toList ++ [[]] := by
  induction lines with
  | nil => rfl
  | cons line rest ih =>
      rw [List.map_cons, String.join_cons, String.toList_append, String.toList_append,
        List.append_assoc]
      have hline : '\n' ∉ line.toList := h line List.mem_cons_self
      have hrest := ih fun other hmem => h other (List.mem_cons_of_mem line hmem)
      rw [List.map_cons, List.cons_append, ← hrest]
      exact List.splitOn_append_cons_self_of_not_mem hline _

/-- Without line breaks in names, the lines of the text are the lines that were drawn. -/
theorem splitOn_drawing (hnames : ∀ name, e.mentions name = true → '\n' ∉ name.toList) :
    e.drawing.toList.splitOn '\n' = e.drawingLines.map String.toList ++ [[]] := by
  apply splitOn_join
  intro line hmem
  rw [drawingLines, List.mem_cons] at hmem
  obtain rfl | hline := hmem
  · decide
  · exact newline_not_mem_subtreeLines hnames (by decide) hline

/-! ### Reading a drawing -/

theorem isWellNamed_label
    (hnames : ∀ name, e.mentions name = true → Settings.isVariable name = true) :
    e.label.isWellNamed = true := by
  cases e with
  | identifier name => exact hnames name (by rw [mentions, beq_self_eq_true])
  | literal _ | binary _ _ _ | call _ _ => rfl

/-- Lines that begin alike show the same node first. -/
theorem label_eq_of_subtreeLines_append_eq {e' : Expr} {margin : String} {last : Bool}
    {rest rest' : List String}
    (hnames : ∀ name, e.mentions name = true → Settings.isVariable name = true)
    (hnames' : ∀ name, e'.mentions name = true → Settings.isVariable name = true)
    (h : e.subtreeLines margin last ++ rest = e'.subtreeLines margin last ++ rest') :
    e.label = e'.label := by
  rw [subtreeLines.eq_def, subtreeLines.eq_def margin last e', List.cons_append,
    List.cons_append] at h
  have htext : e.nodeText = e'.nodeText := (String.append_right_inj _).mp (List.cons.inj h).1
  rw [nodeText_eq, nodeText_eq] at htext
  exact Token.text_injective (isWellNamed_label hnames) (isWellNamed_label hnames') htext

/-- What begins with the lines of an expression begins with those of no other. A node's text tells
    what kind of node it is, and so how many operands follow. -/
theorem subtreeLines_append_inj {e' : Expr} {margin : String} {last : Bool}
    {rest rest' : List String}
    (hnames : ∀ name, e.mentions name = true → Settings.isVariable name = true)
    (hnames' : ∀ name, e'.mentions name = true → Settings.isVariable name = true)
    (h : e.subtreeLines margin last ++ rest = e'.subtreeLines margin last ++ rest') :
    e = e' ∧ rest = rest' := by
  have hlabel := label_eq_of_subtreeLines_append_eq hnames hnames' h
  induction e generalizing e' margin last rest rest' with
  | literal value =>
      cases e' with
      | identifier _ | binary _ _ _ | call _ _ => cases hlabel
      | literal value' =>
          cases hlabel
          exact ⟨rfl, List.append_cancel_left h⟩
  | identifier name =>
      cases e' with
      | literal _ | binary _ _ _ | call _ _ => cases hlabel
      | identifier name' =>
          cases hlabel
          exact ⟨rfl, List.append_cancel_left h⟩
  | binary op left right ihl ihr =>
      cases e' with
      | literal _ | identifier _ | call _ _ => cases hlabel
      | binary op' left' right' =>
          cases hlabel
          obtain ⟨hleft, hright⟩ := forall_mentions_binary.mp hnames
          obtain ⟨hleft', hright'⟩ := forall_mentions_binary.mp hnames'
          rw [subtreeLines, subtreeLines, List.cons_append, List.cons_append, List.append_assoc,
            List.append_assoc] at h
          have hbelow := (List.cons.inj h).2
          obtain ⟨rfl, hrest⟩ := ihl hleft hleft' hbelow
            (label_eq_of_subtreeLines_append_eq hleft hleft' hbelow)
          obtain ⟨rfl, hend⟩ := ihr hright hright' hrest
            (label_eq_of_subtreeLines_append_eq hright hright' hrest)
          exact ⟨rfl, hend⟩
  | call f argument ih =>
      cases e' with
      | literal _ | identifier _ | binary _ _ _ => cases hlabel
      | call f' argument' =>
          cases hlabel
          rw [subtreeLines, subtreeLines, List.cons_append, List.cons_append] at h
          have hbelow := (List.cons.inj h).2
          have hargument := (forall_mentions_call (f := f)).mp hnames
          have hargument' := (forall_mentions_call (f := f)).mp hnames'
          obtain ⟨rfl, hrest⟩ := ih hargument hargument' hbelow
            (label_eq_of_subtreeLines_append_eq hargument hargument' hbelow)
          exact ⟨rfl, hrest⟩

/-- A variable is written on one line. -/
theorem newline_not_mem_of_isVariable {name : String} (h : Settings.isVariable name = true) :
    '\n' ∉ name.toList := by
  intro hmem
  have hletter := (Settings.isVariable_iff.mp h).2.1 _ hmem
  cases hletter

/-- The lines of a drawing can be read off its text, and the expression off the lines. -/
theorem eq_of_drawing_eq {e' : Expr}
    (hnames : ∀ name, e.mentions name = true → Settings.isVariable name = true)
    (hnames' : ∀ name, e'.mentions name = true → Settings.isVariable name = true)
    (h : e.drawing = e'.drawing) : e = e' := by
  have htext := congrArg (fun text : String => text.toList.splitOn '\n') h
  rw [splitOn_drawing fun name hmem => newline_not_mem_of_isVariable (hnames name hmem),
    splitOn_drawing fun name hmem => newline_not_mem_of_isVariable (hnames' name hmem)] at htext
  have hlines : e.drawingLines = e'.drawingLines :=
    List.map_injective_iff.mpr (fun _ _ => String.toList_injective) (List.append_cancel_right htext)
  rw [drawingLines, drawingLines, List.cons.injEq] at hlines
  exact (subtreeLines_append_inj hnames hnames' (congrArg (· ++ []) hlines.2)).1

end Expr

/-- A drawing shows its expression. It is what a printer of trees with the default layout prints of
    it. If no name has a line break, the text is the title and one line for every node, a node
    before its operands and these from left to right, where the branch of a node goes on exactly
    when a sibling is still to come. Two expressions whose names are variables have the same drawing
    only if they are the same. -/
theorem drawing_shows_expression (e : Expr) :
    (∀ printer : TreePrinter, printer.IsDefault →
      String.join ((printer.print (e.walk printer (printer.start "expression"))).map (· ++ "\n")) =
        e.drawing) ∧
    ((∀ name, e.mentions name = true → '\n' ∉ name.toList) →
      e.drawing.toList.splitOn '\n' =
        ("expression" :: (e.places []).map NodePlace.line).map String.toList ++ [[]]) ∧
    (∀ place, place ∈ e.places [] ↔ e.nodeAt? place.address = some place.node) ∧
    (e.places []).Pairwise (fun place later => place.address < later.address) ∧
    (∀ place ∈ e.places [], endsBranch place.address = false ↔
      ∃ above sibling, place.address = above ++ [false] ∧
        e.nodeAt? (above ++ [true]) = some sibling) ∧
    ((∀ name, e.mentions name = true → Settings.isVariable name = true) →
      ∀ e' : Expr, (∀ name, e'.mentions name = true → Settings.isVariable name = true) →
        e.drawing = e'.drawing → e = e') := by
  refine ⟨fun printer hdefault => ?_, fun hnames => ?_, fun place => Expr.mem_places_iff,
    Expr.pairwise_places [] e, fun place => Expr.endsBranch_eq_false_iff,
    fun hnames e' hnames' => Expr.eq_of_drawing_eq hnames hnames'⟩
  · rw [Expr.print_walk hdefault, Expr.drawing]
  · rw [Expr.splitOn_drawing hnames, Expr.drawingLines_eq]

/-- `sin(x) / -2` -/
def quotientOfCall : Expr :=
  .quotient (.call .sin (.identifier "x")) (.literal (-2))

/-- `sin(x / -2)` -/
def callOfQuotient : Expr :=
  .call .sin (.quotient (.identifier "x") (.literal (-2)))

theorem drawing_shows_quotientOfCall :
    defaultPrinter.IsDefault ∧
      String.join ((defaultPrinter.print (quotientOfCall.walk defaultPrinter
          (defaultPrinter.start "expression"))).map (· ++ "\n")) =
        "expression\n└─ /\n   ├─ sin\n   │  └─ x\n   └─ -2\n" ∧
      (∀ name, quotientOfCall.mentions name = true → '\n' ∉ name.toList) ∧
      quotientOfCall.drawing.toList.splitOn '\n' =
        ["expression", "└─ /", "   ├─ sin", "   │  └─ x", "   └─ -2", ""].map String.toList ∧
      endsBranch [false] = false ∧
      (∀ name, quotientOfCall.mentions name = true → Settings.isVariable name = true) ∧
      (∀ name, callOfQuotient.mentions name = true → Settings.isVariable name = true) ∧
      quotientOfCall.drawing ≠ callOfQuotient.drawing := by
  have hx : ∀ name, quotientOfCall.mentions name = true → name = "x" := by
    simp [quotientOfCall, Expr.quotient, Expr.mentions]
  have hx' : ∀ name, callOfQuotient.mentions name = true → name = "x" := by
    simp [callOfQuotient, Expr.quotient, Expr.mentions]
  have hvariables : ∀ name, quotientOfCall.mentions name = true →
      Settings.isVariable name = true := fun name h => hx name h ▸ rfl
  have hvariables' : ∀ name, callOfQuotient.mentions name = true →
      Settings.isVariable name = true := fun name h => hx' name h ▸ rfl
  have hlines : ∀ name, quotientOfCall.mentions name = true → '\n' ∉ name.toList :=
    fun name h => hx name h ▸ by decide
  obtain ⟨hprinted, hsplit, -, -, hbranches, hdifferent⟩ := drawing_shows_expression quotientOfCall
  have hsibling : quotientOfCall.nodeAt? ([] ++ [true]) = some (.literal (-2)) := rfl
  have hplace : ⟨[false], .call .sin (.identifier "x")⟩ ∈ quotientOfCall.places [] := by decide
  exact ⟨isDefault_defaultPrinter, hprinted defaultPrinter isDefault_defaultPrinter, hlines,
    hsplit hlines, (hbranches _ hplace).mpr ⟨[], _, rfl, hsibling⟩, hvariables, hvariables',
    fun h => absurd (hdifferent hvariables _ hvariables' h) (by decide)⟩

end SymbolicCalculus
