/-
Module: SymbolicCalculus.Postfix
Layer: Tokens
Purpose: Infix tokens in postfix order. The tokens are taken one at a time beside a stack of symbols
  that still wait for their operands: operators, open parentheses and called functions, the latest
  on top. A value is emitted at once. An operator waits until one arrives that binds no tighter, or
  until its parentheses close, and so all operators group to the left. A called function waits under
  its own parenthesis and is emitted when that closes.
  Only three things are checked: that parentheses match, that a function is followed by an argument
  in parentheses, and how many arguments a function lies in. Whether operators have their operands
  is found out when a tree is built.
Trusted boundary: none
Main exports: Pending, Pending.yieldsTo, Postfix.step, Postfix.run, Postfix.ofInfix
-/
import SymbolicCalculus.Fault

namespace SymbolicCalculus

/-- A symbol that waits for its operands or for its closing parenthesis. -/
inductive Pending where
  | operator (op : BinaryOp)
  | openParen
  | function (f : ElementaryFunction)
deriving DecidableEq, Repr

namespace Pending

/-- Whether a waiting symbol is an operator. -/
def isOperator : Pending → Bool
  | .operator _ => true
  | .openParen | .function _ => false

/-- Whether a waiting symbol is a called function. -/
def isFunction : Pending → Bool
  | .function _ => true
  | .operator _ | .openParen => false

/-- Whether a waiting symbol has all its operands when an operator arrives: it is itself an operator
    and binds at least as tightly. -/
def yieldsTo (incoming : BinaryOp) : Pending → Bool
  | .operator op => incoming.precedence ≤ op.precedence
  | .openParen | .function _ => false

/-- What a waiting symbol leaves in postfix order. A parenthesis leaves nothing. -/
def emission : Pending → List Token
  | .operator op => [.operator op]
  | .openParen => []
  | .function f => [.function f]

end Pending

namespace Postfix

/-- Whether the parenthesis just opened is closed in the tokens that follow, when `inner` further
    parentheses are open. The count has no bound here. One of 32 bits with a sign comes to the same
    as long as fewer than `2 ^ 31` parentheses are open at once. -/
def closesAfter : (inner : Nat) → List Token → Bool
  | _, [] => false
  | inner, .openParen :: rest => closesAfter (inner + 1) rest
  | 0, .closeParen :: _ => true
  | inner + 1, .closeParen :: rest => closesAfter inner rest
  | inner, _ :: rest => closesAfter inner rest

/-- The number of function arguments that the next token lies in. -/
def callDepth (stack : List Pending) : Nat :=
  stack.countP Pending.isFunction

/-- Checks the call of a function against the tokens that follow its name: there is a parenthesis,
    it is closed, something stands in it, and it lies in fewer arguments than the limit. -/
def checkCall (limit : Nat) (stack : List Pending) (f : ElementaryFunction) :
    List Token → Except Fault Unit
  | .openParen :: rest =>
      if closesAfter 0 rest = false then .error .mismatchedParenthesis
      else if rest.head? = some .closeParen then .error (.emptyArgument f)
      else if limit ≤ callDepth stack then .error (.nestingTooDeep limit)
      else .ok ()
  | _ => .error (.missingArgument f)

/-- Emits the called function that stands on top, if its argument has just been closed. -/
def closeCall : List Pending → List Token × List Pending
  | .function f :: rest => ([.function f], rest)
  | stack => ([], stack)

/-- Emits all that waits above the innermost open parenthesis, then removes the parenthesis together
    with the function it belongs to. -/
def closeGroup (stack : List Pending) : Except Fault (List Token × List Pending) :=
  match stack.dropWhile Pending.isOperator with
  | .openParen :: rest =>
      let (call, left) := closeCall rest
      .ok ((stack.takeWhile Pending.isOperator).flatMap Pending.emission ++ call, left)
  | _ => .error .mismatchedParenthesis

/-- One token: what is emitted at it, and what waits after it. The tokens that follow are looked at
    only to check a call. -/
def step (limit : Nat) (stack : List Pending) (token : Token) (following : List Token) :
    Except Fault (List Token × List Pending) :=
  match token with
  | .literal value => .ok ([.literal value], stack)
  | .identifier name => .ok ([.identifier name], stack)
  | .function f => do
      checkCall limit stack f following
      return ([], .function f :: stack)
  | .operator op =>
      .ok ((stack.takeWhile (·.yieldsTo op)).flatMap Pending.emission,
        .operator op :: stack.dropWhile (·.yieldsTo op))
  | .openParen => .ok ([], .openParen :: stack)
  | .closeParen => closeGroup stack

/-- At the end every waiting symbol has to be an operator, and is emitted. -/
def finish (stack : List Pending) : Except Fault (List Token) :=
  if stack.all Pending.isOperator then .ok (stack.flatMap Pending.emission)
  else .error .mismatchedParenthesis

/-- Takes tokens one after the other, beginning with the given waiting symbols. -/
def run (limit : Nat) (stack : List Pending) : List Token → Except Fault (List Token)
  | [] => finish stack
  | token :: rest => do
      let (emitted, left) ← step limit stack token rest
      let tokens ← run limit left rest
      return emitted ++ tokens

/-- Infix tokens in postfix order. -/
def ofInfix (limit : Nat) (tokens : List Token) : Except Fault (List Token) :=
  run limit [] tokens

end Postfix

end SymbolicCalculus
