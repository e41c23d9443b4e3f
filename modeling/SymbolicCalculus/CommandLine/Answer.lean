/-
Module: SymbolicCalculus.CommandLine.Answer
Layer: Command line
Purpose: What the program prints and how it ends. The sections of the output are printed in order up
  to the first that can not be had; then its failure is reported with all its causes, and the
  program ends with status 1. Misuse of the options ends with status 2.
Trusted boundary: none
Main exports: Failure.report, Answer, Options.sections, Options.answer, Invocation.answer
-/
import SymbolicCalculus.CommandLine.Options
import SymbolicCalculus.Derivative.Basic

namespace SymbolicCalculus

namespace Failure

/-- A character of a text, with a margin behind it if it breaks the line. -/
def withMargin (margin : String) (c : Char) : List Char :=
  if c = '\n' then '\n' :: margin.toList else [c]

/-- Text with a margin before every line but the first. -/
def hang (margin text : String) : String :=
  .ofList (text.toList.flatMap (withMargin margin))

/-- Text that is set in: the first line after the given head, every other one below it. -/
def setIn (head margin text : String) : String :=
  head ++ hang margin text ++ "\n"

/-- The number of a cause, which ends in a column of its own. -/
def ordinal (n : Nat) : String :=
  .ofList (n.repr.toList.leftpad 5 ' ') ++ ": "

/-- The causes of a failure, each set in on lines of its own. They are numbered if there are
    several. -/
def causeLines : List String → String
  | [] => ""
  | [cause] => "\nCaused by:\n" ++ setIn "    " "    " cause
  | causes =>
      "\nCaused by:\n" ++
        String.join (causes.zipIdx.map fun (cause, n) => setIn (ordinal n) "       " cause)

/-- A failure with its causes below it. -/
def report (failure : Failure) : String :=
  setIn "Error: " "" failure.headline ++ causeLines failure.causes

end Failure

/-- What the program prints, and the status it ends with. -/
structure Answer where
  status : UInt32
  output : String
  errors : String
deriving DecidableEq, Repr

namespace Options

/-- The line with the expression in postfix order. -/
def postfixSection (options : Options) : Except Failure String := do
  let tokens ← ((Postfix.read options.settings.maxDepth options.expression).mapError .plain).outcome
  return Token.postfixLine tokens ++ "\n"

/-- The line with the derivative, below the drawings if they are wanted. -/
def derivativeSection (options : Options) : Except Failure String := do
  let e ← (Expr.read options.settings.maxDepth options.expression).outcome
  let e' ← ((e.derivative options.settings).mapError .plain).outcome
  let drawings := if options.showTrees then e.drawing ++ e'.drawing else ""
  return drawings ++ e'.render ++ "\n"

/-- The sections of the output. Settings that can not be used fail before there is any. -/
def sections (options : Options) : List (Except Failure String) :=
  (options.settings.validate.mapError .plain).map (fun _ => "") ::
    (if options.showPostfix then [options.postfixSection] else []) ++
    [options.derivativeSection]

/-- The sections up to the first that fails, and its failure. -/
def printed : List (Except Failure String) → String × Option Failure
  | [] => ("", none)
  | .ok text :: rest =>
      let (output, failure) := printed rest
      (text ++ output, failure)
  | .error failure :: _ => ("", some failure)

/-- The answer to one expression. -/
def answer (options : Options) : Answer :=
  match printed options.sections with
  | (output, none) => ⟨0, output, ""⟩
  | (output, some failure) => ⟨1, output, failure.report⟩

end Options

namespace Invocation

/-- The line that names the program and its version. -/
def versionLine : String := "infix-derivative-cli 0.1.0\n"

/-- How the program is called. -/
def usage : String :=
  String.join <| List.map (· ++ "\n") [
    "Differentiates the given expression",
    "",
    "USAGE:",
    "    infix-derivative-cli [OPTIONS] [EXPRESSION]",
    "",
    "ARGS:",
    "    <EXPRESSION>    The expression to differentiate [default: a^x]",
    "",
    "OPTIONS:",
    "    -h, --help                  Print help information",
    "        --max-depth <N>         How deeply the expression may nest [default: 512]",
    "        --postfix               Print the expression in postfix notation",
    "    -q, --quiet                 Less output per occurrence",
    "    -r, --with-respect-to <V>   The variable to differentiate with respect to [default: x]",
    "        --strict                Fail on powers other than x^n and a^x",
    "        --tree                  Print the expression and its derivative as trees",
    "    -v, --verbose               More output per occurrence",
    "    -V, --version               Print version information"]

/-- The answer to the arguments of the program. -/
def answer : Invocation → Answer
  | .misuse => ⟨2, "", "error: the arguments are not understood, try --help\n"⟩
  | .help => ⟨0, usage, ""⟩
  | .version => ⟨0, versionLine, ""⟩
  | .run options => options.answer

end Invocation

end SymbolicCalculus
