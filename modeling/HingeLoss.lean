import HingeLoss.Decimal.Reading
import HingeLoss.Scalar.Rational
import HingeLoss.Text.Blank
import HingeLoss.Text.RawText
import HingeLoss.Constraint
import HingeLoss.Expression.Evaluation
import HingeLoss.Standard.Canonical
import HingeLoss.Program.Conic
import HingeLoss.Solver.Answer
import HingeLoss.Solver.InteriorPoint
import HingeLoss.Problem
import HingeLoss.Log.Filter
import HingeLoss.Document.Reading
import HingeLoss.Document.Printing
import HingeLoss.CommandLine.Run
import HingeLoss.Machine
import HingeLoss.Main
import HingeLoss.Proofs.Expression.Convexity
import HingeLoss.Proofs.Standard.Modes
import HingeLoss.Proofs.Program.Exactness
import HingeLoss.Proofs.Problem.Exactness
import HingeLoss.Proofs.Problem.Acceptance
import HingeLoss.Proofs.Document.Report
import HingeLoss.Proofs.Document.Renaming
import HingeLoss.Proofs.Document.RoundTrip
import HingeLoss.Proofs.CommandLine.Run
import HingeLoss.Proofs.Document.Building
import HingeLoss.Proofs.Document.Evaluation
import HingeLoss.Proofs.Program.Definiteness
import HingeLoss.Proofs.Document.Layout
import HingeLoss.Proofs.Problem.Constants
import HingeLoss.Proofs.Standard.Refusal
import HingeLoss.Proofs.Program.Consistency
import HingeLoss.Proofs.Document.Resolution
import HingeLoss.Proofs.Document.SolvedValues
import HingeLoss.Proofs.Document.Naming
import HingeLoss.Proofs.CommandLine.Arguments
import HingeLoss.Proofs.CommandLine.Configuration
import HingeLoss.Proofs.Standard.Chains
import HingeLoss.Proofs.Problem.Variables
import HingeLoss.Proofs.Program.Collection
import HingeLoss.Proofs.Standard.Homomorphism
