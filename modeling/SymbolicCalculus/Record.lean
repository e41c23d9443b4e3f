/-
Module: SymbolicCalculus.Record
Layer: Records
Purpose: What the work on an expression reports while it goes on. A record holds the thing it is
  about; its level and its wording follow from its kind.
Trusted boundary: none
Main exports: Level, Record, Record.level, Record.text, Record.line
-/
import SymbolicCalculus.Expr.Drawing
import SymbolicCalculus.Expr.Infix
import SymbolicCalculus.Expr.Inspect
import SymbolicCalculus.Token.Inspect

namespace SymbolicCalculus

/-- How much attention a record asks for. -/
inductive Level where
  | trace
  | debug
  | warn
deriving DecidableEq, Repr

/-- The word that a record's line begins with. -/
def Level.word : Level → String
  | .trace => "TRACE"
  | .debug => "DEBUG"
  | .warn => "WARN"

/-- One report. -/
inductive Record where
  /-- Infix tokens were put into postfix order. -/
  | reordered (tokens : List Token)
  /-- A text was read as an expression that is to be differentiated. -/
  | expression (tree : Expr)
  /-- An expression was differentiated. -/
  | derivative (tree : Expr)
  /-- The chain rule is applied to a call. -/
  | chainRule (call : Expr)
  /-- The rule for `x ^ n` is applied. -/
  | powerRule (power : Expr)
  /-- The rule for `a ^ x` is applied. -/
  | exponentialRule (power : Expr)
  /-- A power has no rule, and its derivative is taken to be zero. -/
  | takenAsZero (power : Expr)
deriving DecidableEq, Repr

namespace Record

/-- The level of a record. -/
def level : Record → Level
  | .reordered _ | .expression _ | .derivative _ => .debug
  | .chainRule _ | .powerRule _ | .exponentialRule _ => .trace
  | .takenAsZero _ => .warn

/-- The wording of a record. -/
def text : Record → String
  | .reordered tokens => "Postfix tokens: " ++ Token.inspectList tokens
  | .expression tree => "Expression tree:\n" ++ tree.drawing
  | .derivative tree => "Derivative tree:\n" ++ tree.drawing
  | .chainRule call => "Applying chain rule to " ++ call.inspect
  | .powerRule power => "Applying power rule to " ++ power.inspect
  | .exponentialRule power => "Applying exponential rule to " ++ power.inspect
  | .takenAsZero power =>
      "Can not differentiate " ++ power.render ++ ", using 0 as its derivative"

/-- A record after the word for its level. -/
def line (record : Record) : String :=
  record.level.word ++ " " ++ record.text

end Record

end SymbolicCalculus
