/-
Module: SymbolicCalculus.Proofs.TreePrinting
Layer: Proofs
Purpose: Drawings made by a printer of trees. The printer is any that takes the items of a tree one
  after the other, where an item stays open until it is ended, and that prints them by the default
  layout: an item's text behind its branch, and what is below it set in by the stem of the branch.
  An expression is walked through from the root, and every node begins an item that ends behind its
  operands. What is printed then are the lines of the drawing.
Trusted boundary: human-reviewed spec
Main exports: Outline, Outline.lines, TreePrinter, TreePrinter.IsDefault, Expr.walk,
  Expr.print_walk, defaultPrinter, isDefault_defaultPrinter
-/
import SymbolicCalculus.Expr.Drawing

namespace SymbolicCalculus

/-- An item of a printed tree, with the items below it. -/
inductive Outline where
  | item (text : String) (below : List Outline)

namespace Outline

mutual

/-- The lines of an item by the default layout. What is below the item stands beside the stem of its
    branch. -/
def lines (last : Bool) : Outline → List String
  | .item text below =>
      (Expr.branch last ++ text) :: (linesBelow below).map (Expr.stem last ++ ·)

/-- The lines of the items below another. Only the last has no sibling to come. -/
def linesBelow : List Outline → List String
  | [] => []
  | [outline] => outline.lines true
  | outline :: next :: rest => outline.lines false ++ linesBelow (next :: rest)

end

end Outline

/-- A printer of trees. A draft is a tree to which items can be added below the item that was begun
    last and is not yet ended. -/
structure TreePrinter where
  Draft : Type
  start : String → Draft
  beginItem : Draft → String → Draft
  endItem : Draft → Draft
  addItem : Draft → String → Draft
  print : Draft → List String

namespace TreePrinter

mutual

/-- Adds an item: it is begun, what is below it is added, and it is ended. -/
def add (printer : TreePrinter) (draft : printer.Draft) : Outline → printer.Draft
  | .item text below => printer.endItem (printer.addAll (printer.beginItem draft text) below)

/-- Adds items one after the other. -/
def addAll (printer : TreePrinter) (draft : printer.Draft) : List Outline → printer.Draft
  | [] => draft
  | outline :: rest => printer.addAll (printer.add draft outline) rest

end

/-- A printer with the default layout. An item with nothing below it may be added at once, and the
    items that were added to a title are printed below it. -/
structure IsDefault (printer : TreePrinter) : Prop where
  addItem_eq : ∀ draft text,
    printer.addItem draft text = printer.endItem (printer.beginItem draft text)
  print_eq : ∀ title items,
    printer.print (printer.addAll (printer.start title) items) = title :: Outline.linesBelow items

end TreePrinter

namespace Expr

/-- Takes an expression through a printer, each node before its operands. -/
def walk (printer : TreePrinter) (draft : printer.Draft) : Expr → printer.Draft
  | .literal value => printer.addItem draft (nodeText (.literal value))
  | .identifier name => printer.addItem draft (nodeText (.identifier name))
  | .binary op left right =>
      printer.endItem
        (walk printer (walk printer
          (printer.beginItem draft (nodeText (.binary op left right))) left) right)
  | .call f argument =>
      printer.endItem
        (walk printer (printer.beginItem draft (nodeText (.call f argument))) argument)

/-- The items that an expression is printed as. -/
def outline : Expr → Outline
  | .literal value => .item (nodeText (.literal value)) []
  | .identifier name => .item (nodeText (.identifier name)) []
  | .binary op left right =>
      .item (nodeText (.binary op left right)) [left.outline, right.outline]
  | .call f argument => .item (nodeText (.call f argument)) [argument.outline]

variable {printer : TreePrinter}

/-- A walk adds just one item, and leaves open what was open before it. -/
theorem walk_eq (h : printer.IsDefault) (draft : printer.Draft) (e : Expr) :
    e.walk printer draft = printer.add draft e.outline := by
  induction e generalizing draft with
  | literal value =>
      rw [walk, h.addItem_eq, outline, TreePrinter.add, TreePrinter.addAll]
  | identifier name =>
      rw [walk, h.addItem_eq, outline, TreePrinter.add, TreePrinter.addAll]
  | binary op left right ihl ihr =>
      rw [walk, ihl, ihr, outline]
      simp only [TreePrinter.add, TreePrinter.addAll]
  | call f argument ih =>
      rw [walk, ih, outline]
      simp only [TreePrinter.add, TreePrinter.addAll]

/-- Lines that are set in twice stand behind both margins. -/
theorem map_margin (outer inner : String) (lines : List String) :
    (lines.map (inner ++ ·)).map (outer ++ ·) = lines.map (outer ++ inner ++ ·) := by
  simp only [List.map_map, Function.comp_def, String.append_assoc]

/-- By the default layout an expression has the lines of its drawing, behind any margin. -/
theorem map_lines_outline (margin : String) (last : Bool) (e : Expr) :
    (e.outline.lines last).map (margin ++ ·) = e.subtreeLines margin last := by
  induction e generalizing margin last with
  | literal value =>
      rw [outline, Outline.lines, Outline.linesBelow, subtreeLines, List.map_nil,
        List.map_singleton, String.append_assoc]
  | identifier name =>
      rw [outline, Outline.lines, Outline.linesBelow, subtreeLines, List.map_nil,
        List.map_singleton, String.append_assoc]
  | binary op left right ihl ihr =>
      rw [outline, Outline.lines, Outline.linesBelow, Outline.linesBelow, List.map_cons, map_margin,
        List.map_append, ihl, ihr, subtreeLines, String.append_assoc]
  | call f argument ih =>
      rw [outline, Outline.lines, Outline.linesBelow, List.map_cons, map_margin, ih, subtreeLines,
        String.append_assoc]

/-- What a printer with the default layout prints of an expression is its drawing. -/
theorem print_walk (h : printer.IsDefault) (e : Expr) :
    printer.print (e.walk printer (printer.start "expression")) = e.drawingLines := by
  have hitems : e.walk printer (printer.start "expression") =
      printer.addAll (printer.start "expression") [e.outline] := by
    rw [walk_eq h, TreePrinter.addAll, TreePrinter.addAll]
  have hlines : e.outline.lines true = e.subtreeLines "" true := by
    simpa only [String.empty_append, List.map_id'] using e.map_lines_outline "" true
  rw [hitems, h.print_eq, Outline.linesBelow, hlines, drawingLines]

end Expr

/-! ### A printer with the default layout -/

/-- A tree that is put together: the item that is open, what has been added below it, and the same
    of the items around it, the innermost first. -/
structure OpenItem where
  text : String
  below : List Outline
  around : List (String × List Outline)

namespace OpenItem

/-- Begins an item below the open one. -/
def beginItem (item : OpenItem) (text : String) : OpenItem :=
  ⟨text, [], (item.text, item.below) :: item.around⟩

/-- Adds finished items below the open one. -/
def addBelow (item : OpenItem) (outlines : List Outline) : OpenItem :=
  { item with below := item.below ++ outlines }

/-- Ends the open item, which goes below the one around it. The outermost stays open. -/
def endItem (item : OpenItem) : OpenItem :=
  match item.around with
  | [] => item
  | (text, below) :: around => ⟨text, below ++ [.item item.text item.below], around⟩

end OpenItem

/-- A printer that keeps the items as they are added. -/
def defaultPrinter : TreePrinter where
  Draft := OpenItem
  start text := ⟨text, [], []⟩
  beginItem := OpenItem.beginItem
  endItem := OpenItem.endItem
  addItem item text := item.addBelow [.item text []]
  print item := item.text :: Outline.linesBelow item.below

namespace OpenItem

theorem addBelow_addBelow (item : OpenItem) (first second : List Outline) :
    (item.addBelow first).addBelow second = item.addBelow (first ++ second) := by
  simp only [addBelow, List.append_assoc]

mutual

/-- An item that is added goes below the open one, with what is below it. -/
theorem add_eq (item : OpenItem) : ∀ outline : Outline,
    defaultPrinter.add item outline = item.addBelow [outline]
  | .item text below => by
      change endItem (defaultPrinter.addAll (item.beginItem text) below) = _
      rw [addAll_eq]
      rfl

theorem addAll_eq (item : OpenItem) : ∀ outlines : List Outline,
    defaultPrinter.addAll item outlines = item.addBelow outlines
  | [] => by
      change item = item.addBelow []
      rw [addBelow, List.append_nil]
  | outline :: rest => by
      change defaultPrinter.addAll (defaultPrinter.add item outline) rest = _
      rw [add_eq, addAll_eq]
      exact item.addBelow_addBelow [outline] rest

end

end OpenItem

theorem isDefault_defaultPrinter : defaultPrinter.IsDefault where
  addItem_eq _ _ := rfl
  print_eq title items := by
    change defaultPrinter.print (defaultPrinter.addAll (⟨title, [], []⟩ : OpenItem) items) = _
    rw [OpenItem.addAll_eq]
    rfl

end SymbolicCalculus
