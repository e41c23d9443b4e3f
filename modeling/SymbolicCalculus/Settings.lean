/-
Module: SymbolicCalculus.Settings
Layer: Differentiation
Purpose: What a derivative is taken by: the variable, what to do about powers that have no rule, and
  how deeply expressions may nest. A variable is usable when reading a text can produce it as an
  identifier, which is to say when it is a word of letters that names no function.
Trusted boundary: none
Main exports: PowerPolicy, Settings, Settings.isVariable, Settings.validate
-/
import SymbolicCalculus.Fault

namespace SymbolicCalculus

/-- What to do about a power that mentions the variable and is neither `x ^ n` nor `a ^ x`. -/
inductive PowerPolicy where
  /-- Take its derivative to be zero, and warn. -/
  | zero
  /-- Fail. -/
  | reject
deriving DecidableEq, Repr

/-- What a derivative is taken by. -/
structure Settings where
  withRespectTo : String := "x"
  unsupportedPowers : PowerPolicy := .zero
  maxDepth : Nat := 512
deriving DecidableEq, Repr

namespace Settings

/-- Whether a name can be a variable: a word of ASCII letters that names no function. -/
def isVariable (name : String) : Bool :=
  !name.toList.isEmpty && name.toList.all Char.isAlpha &&
    (ElementaryFunction.ofName? name).isNone

/-- Settings are usable when their variable is. -/
def validate (settings : Settings) : Except Fault Unit :=
  if isVariable settings.withRespectTo then .ok ()
  else .error (.invalidVariable settings.withRespectTo)

end Settings

end SymbolicCalculus
