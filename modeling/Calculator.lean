import Calculator.Binary64.Bits
import Calculator.Expr.Text
import Calculator.Json.Decode
import Calculator.Main
import Calculator.Proofs.NestingLimit
import Calculator.Proofs.Rendering
import Calculator.Proofs.SyntaxErrors
import Calculator.Proofs.EvaluationLimit
import Calculator.Proofs.Words
import Calculator.Proofs.NodeStarts
import Calculator.Proofs.ErrorPlaces
import Calculator.Proofs.ResultText
import Calculator.Proofs.FiniteValues
import Calculator.Proofs.FlooredRemainder
import Calculator.Proofs.SameWords
import Calculator.Proofs.Records
import Calculator.Proofs.BatchLines
import Calculator.Proofs.Concatenation
import Calculator.Proofs.SurroundingBlanks
import Calculator.Proofs.SessionLines
import Calculator.Proofs.Substitution
import Calculator.Proofs.LiteralValues
import Calculator.Proofs.TreeSpans
import Calculator.Proofs.ExactRemainder
import Calculator.Proofs.IntegerArithmetic
import Calculator.Proofs.Boundaries
import Calculator.Proofs.SignOfZero
import Calculator.Proofs.GivenOptions
import Calculator.Proofs.TiedDecimals
import Calculator.Proofs.NumberLayouts
import Calculator.Proofs.ValueAndDisplay
import Calculator.Proofs.ParseCalls
import Calculator.Proofs.EvaluationCount
