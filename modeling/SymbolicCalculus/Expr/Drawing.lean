/-
Module: SymbolicCalculus.Expr.Drawing
Layer: Expressions
Purpose: Expressions drawn as trees, one line for each node and the operands below their operator.
  A line begins with one piece of three characters for every node above, then the branch that leads
  to the node: a bar runs on beside a node that has a sibling still to come.
Trusted boundary: none
Main exports: Expr.nodeText, Expr.drawingLines, Expr.drawing
-/
import SymbolicCalculus.Expr.Basic
import SymbolicCalculus.Token.Basic

namespace SymbolicCalculus.Expr

/-- What a node shows of itself, without its operands. -/
def nodeText : Expr → String
  | .literal value => (Token.literal value).text
  | .identifier name => name
  | .binary op _ _ => (Token.operator op).text
  | .call f _ => f.name

/-- The branch that leads to a node, for a last operand or for one with a sibling to come. -/
def branch (last : Bool) : String :=
  if last then "└─ " else "├─ "

/-- What stands below the branch of a node, on the lines of its operands. -/
def stem (last : Bool) : String :=
  if last then "   " else "│  "

/-- The lines of a subtree, where every line begins with the given margin. -/
def subtreeLines (margin : String) (last : Bool) (e : Expr) : List String :=
  (margin ++ branch last ++ e.nodeText) ::
    match e with
    | .literal _ | .identifier _ => []
    | .binary _ left right =>
        subtreeLines (margin ++ stem last) false left ++
          subtreeLines (margin ++ stem last) true right
    | .call _ argument => subtreeLines (margin ++ stem last) true argument

/-- The lines of a drawing. The whole expression hangs below a title. -/
def drawingLines (e : Expr) : List String :=
  "expression" :: subtreeLines "" true e

/-- A drawing as one text, in which every line is ended. -/
def drawing (e : Expr) : String :=
  String.join (e.drawingLines.map (· ++ "\n"))

end SymbolicCalculus.Expr
