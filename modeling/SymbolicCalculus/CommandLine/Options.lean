/-
Module: SymbolicCalculus.CommandLine.Options
Layer: Command line
Purpose: The arguments of the program. Reading them has two parts. A scan from left to right says
  what every argument is, and stops at once at an argument that can not be understood or that asks
  for help or for the version. Only a complete scan is then checked as a whole: whether values are
  missing, whether options are given twice, whether they exclude each other, and what their values
  mean. So a request for the version wins over a missing value, and an unknown option wins over a
  request for the version that comes after it.
Trusted boundary: none
Main exports: Options, Invocation, Invocation.ofArguments
-/
import SymbolicCalculus.Settings

namespace SymbolicCalculus

/-- What the program is to do with an expression. -/
structure Options where
  expression : String := "a^x"
  settings : Settings := {}
  /-- Whether the expression and its derivative are drawn. -/
  showTrees : Bool := false
  /-- Whether the expression is shown in postfix order. -/
  showPostfix : Bool := false
deriving DecidableEq, Repr

/-- What the arguments of the program ask for. -/
inductive Invocation where
  | misuse
  | help
  | version
  | run (options : Options)
deriving DecidableEq, Repr

namespace CommandLine

/-- Options without a value. The last two say how much is reported while the work goes on; they may
    be repeated, and no answer depends on them. -/
inductive Switch where
  | strict
  | tree
  | postfixOrder
  | verbose
  | quiet
deriving DecidableEq, Repr

/-- Options with a value. -/
inductive Parameter where
  | withRespectTo
  | maxDepth
deriving DecidableEq, Repr

/-- What one or two arguments say. A parameter may lack its value. -/
inductive Item where
  | switch (which : Switch)
  | parameter (which : Parameter) (value : Option String)
  | expression (text : String)
deriving DecidableEq, Repr

/-- Why a scan stops before the end. -/
inductive Interruption where
  | misuse
  | help
  | version
deriving DecidableEq, Repr

/-- The forms of an argument, by its dashes. A single dash is plain. -/
inductive Form where
  | plain
  | long (name : String) (value : Option String)
  | cluster (letters : List Char)
  | endOfOptions
deriving DecidableEq, Repr

/-- The form of an argument. The value of a long option may follow an equals sign. -/
def Form.of (argument : String) : Form :=
  match argument.toList with
  | ['-', '-'] => .endOfOptions
  | '-' :: '-' :: letters =>
      let name := String.ofList (letters.takeWhile (· != '='))
      match letters.dropWhile (· != '=') with
      | _ :: value => .long name (some (.ofList value))
      | [] => .long name none
  | ['-'] => .plain
  | '-' :: letters => .cluster letters
  | _ => .plain

/-- What an option says by itself, and the parameter whose value has to follow it, if any. -/
abbrev Scanned := List Item × Option Parameter

/-- A long option. Only parameters take a value. -/
def scanLong (name : String) (value : Option String) : Except Interruption Scanned :=
  match name, value with
  | "with-respect-to", some value => .ok ([.parameter .withRespectTo (some value)], none)
  | "with-respect-to", none => .ok ([], some .withRespectTo)
  | "max-depth", some value => .ok ([.parameter .maxDepth (some value)], none)
  | "max-depth", none => .ok ([], some .maxDepth)
  | "strict", none => .ok ([.switch .strict], none)
  | "tree", none => .ok ([.switch .tree], none)
  | "postfix", none => .ok ([.switch .postfixOrder], none)
  | "verbose", none => .ok ([.switch .verbose], none)
  | "quiet", none => .ok ([.switch .quiet], none)
  | "help", none => .error .help
  | "version", none => .error .version
  | _, _ => .error .misuse

/-- Short options behind one dash. The value of a parameter is what follows its letter, with or
    without an equals sign between. -/
def scanCluster : List Char → Except Interruption Scanned
  | [] => .ok ([], none)
  | 'v' :: rest => do
      let (items, awaiting) ← scanCluster rest
      return (.switch .verbose :: items, awaiting)
  | 'q' :: rest => do
      let (items, awaiting) ← scanCluster rest
      return (.switch .quiet :: items, awaiting)
  | ['r'] => .ok ([], some .withRespectTo)
  | 'r' :: '=' :: value => .ok ([.parameter .withRespectTo (some (.ofList value))], none)
  | 'r' :: value => .ok ([.parameter .withRespectTo (some (.ofList value))], none)
  | 'h' :: _ => .error .help
  | 'V' :: _ => .error .version
  | _ => .error .misuse

/-- What is said of a parameter that gets no value. -/
def unanswered (awaiting : Option Parameter) : List Item :=
  awaiting.toList.map (.parameter · none)

/-- Arguments after the end of the options. There can be one expression. -/
def scanPlain (expressionSeen : Bool) : List String → Except Interruption (List Item)
  | [] => .ok []
  | argument :: rest =>
      if expressionSeen then .error .misuse
      else return .expression argument :: (← scanPlain true rest)

/-- Arguments from left to right. A parameter that awaits its value takes the next plain argument,
    and any option leaves it without one. -/
def scan (awaiting : Option Parameter) (expressionSeen : Bool) :
    List String → Except Interruption (List Item)
  | [] => .ok (unanswered awaiting)
  | argument :: rest =>
      match Form.of argument, awaiting with
      | .plain, some which =>
          return .parameter which (some argument) :: (← scan none expressionSeen rest)
      | .plain, none =>
          if expressionSeen then .error .misuse
          else return .expression argument :: (← scan none true rest)
      | .endOfOptions, _ => return unanswered awaiting ++ (← scanPlain expressionSeen rest)
      | .long name value, _ => do
          let (items, next) ← scanLong name value
          return unanswered awaiting ++ items ++ (← scan next expressionSeen rest)
      | .cluster letters, _ => do
          let (items, next) ← scanCluster letters
          return unanswered awaiting ++ items ++ (← scan next expressionSeen rest)

/-- The least natural number above every limit of nesting that can be given, which is two to the
    power of 64. -/
def depthBound : Nat := 0x10000000000000000

/-- A limit of nesting: decimal digits, which a plus sign may precede. -/
def depthOfText? (text : String) : Option Nat :=
  let digits := match text.toList with
    | '+' :: digits => digits
    | digits => digits
  let value := Nat.ofDigitChars 10 digits 0
  if !digits.isEmpty && digits.all Char.isDigit && value < depthBound then some value else none

/-- The values given for a parameter, in order. -/
def valuesOf (which : Parameter) (items : List Item) : List (Option String) :=
  items.filterMap fun
    | .parameter other value => if other = which then some value else none
    | _ => none

/-- The value of a parameter, or its default if it is not given. There is none if it is given twice
    or lacks its value, or if the value has no meaning. -/
def valueOf? {α : Type} (which : Parameter) (default : α) (meaning : String → Option α)
    (items : List Item) : Option α :=
  match valuesOf which items with
  | [] => some default
  | [some value] => meaning value
  | _ => none

/-- Whether a switch is given, if it is given at most once. -/
def once? (which : Switch) (items : List Item) : Option Bool :=
  match items.count (.switch which) with
  | 0 => some false
  | 1 => some true
  | _ => none

/-- The expression among the items of a scan, or the default. -/
def expressionOf (default : String) (items : List Item) : String :=
  (items.findSome? fun
    | .expression text => some text
    | _ => none).getD default

/-- The options that the items of a complete scan stand for. -/
def optionsOf? (items : List Item) : Option Options := do
  let defaults : Options := {}
  let withRespectTo ← valueOf? .withRespectTo defaults.settings.withRespectTo some items
  let maxDepth ← valueOf? .maxDepth defaults.settings.maxDepth depthOfText? items
  let strict ← once? .strict items
  let showTrees ← once? .tree items
  let showPostfix ← once? .postfixOrder items
  if items.contains (.switch .verbose) && items.contains (.switch .quiet) then none
  else
    let unsupportedPowers := if strict then PowerPolicy.reject else .zero
    return {
      expression := expressionOf defaults.expression items
      settings := { withRespectTo, unsupportedPowers, maxDepth }
      showTrees
      showPostfix }

end CommandLine

/-- What a list of arguments asks for. -/
def Invocation.ofArguments (arguments : List String) : Invocation :=
  match CommandLine.scan none false arguments with
  | .error .misuse => .misuse
  | .error .help => .help
  | .error .version => .version
  | .ok items =>
      match CommandLine.optionsOf? items with
      | some options => .run options
      | none => .misuse

end SymbolicCalculus
