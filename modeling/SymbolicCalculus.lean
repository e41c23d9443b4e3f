import SymbolicCalculus.Operator
import SymbolicCalculus.ElementaryFunction
import SymbolicCalculus.Text.Blank
import SymbolicCalculus.Text.Printable
import SymbolicCalculus.Text.Quoted
import SymbolicCalculus.Token.Basic
import SymbolicCalculus.Token.Printing
import SymbolicCalculus.Token.Inspect
import SymbolicCalculus.Expr.Basic
import SymbolicCalculus.Expr.Infix
import SymbolicCalculus.Expr.Drawing
import SymbolicCalculus.Expr.Inspect
import SymbolicCalculus.Fault
import SymbolicCalculus.Record
import SymbolicCalculus.Logged
import SymbolicCalculus.Token.Lexer
import SymbolicCalculus.Postfix
import SymbolicCalculus.Expr.Postfix
import SymbolicCalculus.Reading
import SymbolicCalculus.Settings
import SymbolicCalculus.Derivative.Table
import SymbolicCalculus.Derivative.Rules
import SymbolicCalculus.Derivative.Basic
import SymbolicCalculus.Workspace
import SymbolicCalculus.CommandLine.Options
import SymbolicCalculus.CommandLine.Answer
import SymbolicCalculus.Main
import SymbolicCalculus.Proofs.DerivativeRelation
import SymbolicCalculus.Proofs.DerivativeSoundness
import SymbolicCalculus.Proofs.Conversion
import SymbolicCalculus.Proofs.GrammarAgreement
import SymbolicCalculus.Proofs.Acceptance
import SymbolicCalculus.Proofs.Regrouping
import SymbolicCalculus.Proofs.Conservation
import SymbolicCalculus.Proofs.Lexing
import SymbolicCalculus.Proofs.TextRoundTrip
import SymbolicCalculus.Proofs.RegroupingValue
import SymbolicCalculus.Proofs.DerivativeSteps
import SymbolicCalculus.Proofs.PowerPolicies
import SymbolicCalculus.Proofs.ReadExpressions
import SymbolicCalculus.Proofs.LineDecoding
import SymbolicCalculus.Proofs.RenderingEquality
import SymbolicCalculus.Proofs.TokenRoundTrip
import SymbolicCalculus.Proofs.DepthLimits
import SymbolicCalculus.Proofs.SpanConversion
import SymbolicCalculus.Proofs.FailureReports
import SymbolicCalculus.Proofs.CommandLineAnswers
import SymbolicCalculus.Proofs.Fallbacks
import SymbolicCalculus.Proofs.Composition
import SymbolicCalculus.Proofs.PostfixForests
import SymbolicCalculus.Proofs.ValueOrder
import SymbolicCalculus.Proofs.Parentheses
import SymbolicCalculus.Proofs.FirstFaults
import SymbolicCalculus.Proofs.FirstOffences
import SymbolicCalculus.Proofs.FunctionTable
import SymbolicCalculus.Proofs.DerivativeGrowth
import SymbolicCalculus.Proofs.DerivativeLanguage
import SymbolicCalculus.Proofs.TextConcatenation
import SymbolicCalculus.Proofs.LexicalFaults
import SymbolicCalculus.Proofs.PrintedTokens
import SymbolicCalculus.Proofs.FewestParentheses
import SymbolicCalculus.Proofs.Renaming
import SymbolicCalculus.Proofs.TreePrinting
import SymbolicCalculus.Proofs.Drawings
import SymbolicCalculus.Proofs.BracketedForms
import SymbolicCalculus.Proofs.SpanStacks
import SymbolicCalculus.Proofs.VanishingDerivatives
import SymbolicCalculus.Proofs.WorkspaceRuns
