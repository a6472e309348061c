import Reckoner.Main
import Reckoner.Proofs.Builtin.Divisor
import Reckoner.Proofs.Calculator.Again
import Reckoner.Proofs.Calculator.Height
import Reckoner.Proofs.Calculator.Invariant
import Reckoner.Proofs.Calculator.Limit
import Reckoner.Proofs.Calculator.Place
import Reckoner.Proofs.Calculator.Precision
import Reckoner.Proofs.Calculator.Shown
import Reckoner.Proofs.Console.Dialogue
import Reckoner.Proofs.Eval.Mention
import Reckoner.Proofs.Eval.Shape
import Reckoner.Proofs.Expr.Diagnosis
import Reckoner.Proofs.Expr.Written
import Reckoner.Proofs.Measure.RoundTrip
import Reckoner.Proofs.Number.Power
import Reckoner.Proofs.Source.Order
import Reckoner.Proofs.Token.Alphabet
import Reckoner.Proofs.Token.Factor
import Reckoner.Proofs.Token.Respell
import Reckoner.Proofs.Token.Spaced
