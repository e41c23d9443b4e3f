/-
Module: SymbolicCalculus.ElementaryFunction
Layer: Symbols
Purpose: The catalogue of elementary functions an expression may call. Every function is known by
  one name, and a name is matched whole: `sinx` names no function.
Trusted boundary: none
Main exports: ElementaryFunction, ElementaryFunction.name, ElementaryFunction.ofName?,
  ElementaryFunction.all, ElementaryFunction.index
-/

namespace SymbolicCalculus

/-- The functions that an expression may call, each with a known derivative. -/
inductive ElementaryFunction where
  | sin
  | cos
  | tan
  | cot
  | arcsin
  | arccos
  | arctan
  | arccot
  | ln
  | sqrt
deriving DecidableEq, Repr

namespace ElementaryFunction

/-- The catalogue in its listed order. -/
def all : List ElementaryFunction :=
  [.sin, .cos, .tan, .cot, .arcsin, .arccos, .arctan, .arccot, .ln, .sqrt]

/-- The name by which an expression calls a function. -/
def name : ElementaryFunction → String
  | .sin => "sin"
  | .cos => "cos"
  | .tan => "tan"
  | .cot => "ctg"
  | .arcsin => "arcsin"
  | .arccos => "arccos"
  | .arctan => "arctg"
  | .arccot => "arcctg"
  | .ln => "ln"
  | .sqrt => "sqrt"

/-- The function that a word names, if it names one. -/
def ofName? (word : String) : Option ElementaryFunction :=
  all.find? (·.name == word)

/-- A function's place in the catalogue, counted from zero. -/
def index (f : ElementaryFunction) : Nat :=
  all.idxOf f

/-- A function's name in the bracketed form of an expression. -/
def label : ElementaryFunction → String
  | .sin => "Sine"
  | .cos => "Cosine"
  | .tan => "Tangent"
  | .cot => "Cotangent"
  | .arcsin => "ArcSine"
  | .arccos => "ArcCosine"
  | .arctan => "ArcTangent"
  | .arccot => "ArcCotangent"
  | .ln => "NaturalLogarithm"
  | .sqrt => "PositiveSquareRoot"

theorem mem_all (f : ElementaryFunction) : f ∈ all := by
  cases f <;> decide

@[simp] theorem ofName?_name (f : ElementaryFunction) : ofName? f.name = some f := by
  cases f <;> decide

/-- A word names a function exactly when it is that function's name. -/
theorem ofName?_eq_some_iff {word : String} {f : ElementaryFunction} :
    ofName? word = some f ↔ f.name = word := by
  constructor
  · intro h
    simpa using List.find?_some h
  · rintro rfl
    exact ofName?_name f

end ElementaryFunction

end SymbolicCalculus
