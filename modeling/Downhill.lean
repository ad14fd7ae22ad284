import Downhill.ConfigDocument
import Downhill.Descent
import Downhill.Problem
import Downhill.Proofs.Exact.Agreement
import Downhill.Proofs.Exact.Derivatives
import Downhill.Proofs.Exact.Descent
import Downhill.Proofs.Exact.FullStep
import Downhill.Proofs.Exact.Quadratic
import Downhill.Proofs.Exact.Region
import Downhill.Proofs.Exact.Sides
import Downhill.Proofs.Exact.Systems
import Downhill.Proofs.Exact.Valley
import Downhill.Proofs.Run.Account
import Downhill.Proofs.Run.Certificate
import Downhill.Proofs.Run.Counting
import Downhill.Proofs.Run.Decrease
import Downhill.Proofs.Run.Evaluations
import Downhill.Proofs.Run.Extension
import Downhill.Proofs.Run.Fallback
import Downhill.Proofs.Run.Invariant
import Downhill.Proofs.Run.Loosening
import Downhill.Proofs.Run.Restart
import Downhill.Proofs.Run.Tally
import Downhill.Proofs.Run.Transparency
import Downhill.Proofs.Search.Shift
import Downhill.Proofs.Search.StepLength
import Downhill.Recorder
import Downhill.Sampling
import Downhill.Proofs.Search.FirstStep
import Downhill.Proofs.Run.NonFinite
import Downhill.Proofs.Linear.Shape
import Downhill.Proofs.Evaluation.Fitting
import Downhill.Proofs.Linear.Decomposition
import Downhill.Proofs.Run.Safety
import Downhill.Proofs.Document.Floats
import Downhill.Proofs.Document.RoundTrip
import Downhill.Proofs.Number.Quotient
import Downhill.Proofs.Search.FirstShift
import Downhill.Proofs.Search.Carrying
import Downhill.Proofs.Exact.Overshift
import Downhill.Proofs.Exact.Surrogate
import Downhill.Proofs.Exact.SmallSteps
import Downhill.Proofs.Exact.StepBound
import Downhill.Proofs.Number.Shrinking
import Downhill.Proofs.Search.Underflow
import Downhill.Proofs.Evaluation.Journal
import Downhill.Proofs.Run.Operations
import Downhill.Proofs.Run.Log
import Downhill.Proofs.Exact.Axis
import Downhill.Proofs.Exact.Signature
import Downhill.Proofs.Exact.Minima
import Downhill.Proofs.Document.Fields
import Downhill.Proofs.Sampling.Range
