/-
Module: SymbolicCalculus.Main
Layer: Command line
Purpose: The program: prints the answer to its arguments and ends with its status.
Trusted boundary: printing
Main exports: main
-/
import SymbolicCalculus.CommandLine.Answer

open SymbolicCalculus

/-- Answers the arguments on standard output and standard error. -/
def main (arguments : List String) : IO UInt32 := do
  let answer := (Invocation.ofArguments arguments).answer
  IO.print answer.output
  IO.eprint answer.errors
  return answer.status
