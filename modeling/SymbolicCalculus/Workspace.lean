/-
Module: SymbolicCalculus.Workspace
Layer: Sessions
Purpose: A stack of expressions that commands work on, with the settings they use. It puts the
  operations on expressions one after another, each on what the others left, as they are tried out
  in a session; nothing that reads, writes or differentiates an expression rests on it. A command
  that is refused changes nothing. A command that needs more expressions than there are is refused
  before anything else about it is looked at.
Trusted boundary: none
Main exports: Workspace, Command, Finding, Refusal, Workspace.perform, Workspace.performAll
-/
import SymbolicCalculus.Derivative.Basic

namespace SymbolicCalculus

/-- Expressions, the topmost first, and the settings in force. -/
structure Workspace where
  stack : List Expr := []
  settings : Settings := {}
deriving DecidableEq, Repr

/-- What can be asked of a workspace. -/
inductive Command where
  | configure (settings : Settings)
  | read (text : String)
  | push (e : Expr)
  | differentiate
  | combine (op : BinaryOp)
  | call (f : ElementaryFunction)
  | derivativeAt (f : ElementaryFunction)
  | duplicate
  | swap
  | drop
  | compare
  | mentions (name : String)
  | draw
  | reread
deriving DecidableEq, Repr

/-- What a command finds out beside its effect. -/
inductive Finding where
  | nothing
  | rejectsPowers (answer : Bool)
  | equal (answer : Bool)
  | mentions (answer : Bool)
  | drawing (text : String)
  | unchanged (answer : Bool)
deriving DecidableEq, Repr

/-- Why a command is refused. -/
inductive Refusal where
  | tooFewExpressions
  | failed (failure : Failure)
deriving DecidableEq, Repr

namespace Workspace

/-- A change of the stack that finds out nothing. -/
def withStack (w : Workspace) (stack : List Expr) : Workspace × Finding :=
  ({ w with stack }, .nothing)

/-- The workspace after a command, and what the command found out. -/
def perform (w : Workspace) (command : Command) : Logged Refusal (Workspace × Finding) :=
  match command, w.stack with
  | .configure settings, _ => do
      (Logged.lift settings.validate).mapError (.failed <| .plain ·)
      return ({ w with settings }, .rejectsPowers (settings.unsupportedPowers == .reject))
  | .read text, stack => do
      let e ← (Expr.read w.settings.maxDepth text).mapError .failed
      return w.withStack (e :: stack)
  | .push e, stack => return w.withStack (e :: stack)
  | .differentiate, e :: rest => do
      let e' ← (e.derivative w.settings).mapError (.failed <| .plain ·)
      return w.withStack (e' :: rest)
  | .combine op, right :: left :: rest => return w.withStack (.binary op left right :: rest)
  | .call f, e :: rest => return w.withStack (.call f e :: rest)
  | .derivativeAt f, e :: rest => return w.withStack (f.derivativeAt e :: rest)
  | .duplicate, e :: rest => return w.withStack (e :: e :: rest)
  | .swap, first :: second :: rest => return w.withStack (second :: first :: rest)
  | .drop, _ :: rest => return w.withStack rest
  | .compare, first :: second :: _ => return (w, .equal (first == second))
  | .mentions name, e :: _ => return (w, .mentions (e.mentions name))
  | .draw, e :: _ => return (w, .drawing e.drawing)
  | .reread, e :: rest => do
      let again ← (Expr.read w.settings.maxDepth e.render).mapError .failed
      return ({ w with stack := again :: rest }, .unchanged (again == e))
  | _, _ => Logged.fail .tooFewExpressions

/-- The workspace that stands after a command came out in some way. -/
def after (w : Workspace) : Except Refusal (Workspace × Finding) → Workspace
  | .ok (next, _) => next
  | .error _ => w

/-- A refused command leaves the workspace as it was. -/
@[simp] theorem after_error (w : Workspace) (refusal : Refusal) :
    w.after (.error refusal) = w := rfl

/-- Performs commands in order. Each is answered by the workspace after it and by what it found out
    or why it was refused; the records of all are kept together. -/
def performAll (w : Workspace) :
    List Command → List Record × List (Workspace × Except Refusal Finding)
  | [] => ([], [])
  | command :: rest =>
      let result := w.perform command
      let next := w.after result.outcome
      let (records, answers) := next.performAll rest
      (result.records ++ records, (next, result.outcome.map (·.2)) :: answers)

end Workspace

end SymbolicCalculus
