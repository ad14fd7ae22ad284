import Downhill.Config
import Downhill.Decimal.Text

/-! # Solver errors

The ways in which a solve fails, and their wording.
-/

namespace Downhill

inductive SolverError (α : Type) where
  | hessianNotPositiveDefinite (iteration : Nat)
  /-- The shift that would have come next lies above the cap. -/
  | regularisationOverflow (delta maxDelta : α) (iteration : Nat)
  | dimensionMismatch (unknowns coordinates : Nat)
  | nonFiniteGradient (iteration : Nat)
  | invalidConfig (reason : ConfigError α)
  deriving BEq, DecidableEq, Repr

open Decimal in
def ConfigError.message : ConfigError Float → String
  | tolerance value => "tolerance must be positive and finite, got " ++ plainText value
  | initialStep value =>
      "line search initial_step must be positive and finite, got " ++ plainText value
  | alpha value => "line search alpha must lie in (0, 1), got " ++ plainText value
  | tau value => "line search tau must lie in (0, 1), got " ++ plainText value
  | gamma value => "gamma must be greater than 1 and finite, got " ++ plainText value
  | initialDelta value => "initial_delta must be positive, got " ++ plainText value
  | maxDelta value seed =>
      "max_delta (" ++ plainText value ++ ") must not be below initial_delta (" ++
        plainText seed ++ ")"
  | unreadable => "document does not hold a configuration"
  | other reason => reason

open Decimal in
def SolverError.message : SolverError Float → String
  | hessianNotPositiveDefinite iteration =>
      "Hessian is not positive definite or cannot be decomposed at iteration " ++
        toString iteration
  | regularisationOverflow delta maxDelta iteration =>
      "Regularisation " ++ scientificText delta ++ " exceeded cap " ++ scientificText maxDelta ++
        " at iteration " ++ toString iteration
  | dimensionMismatch unknowns coordinates =>
      "Dimension mismatch: problem has " ++ toString unknowns ++ " unknowns, start point has " ++
        toString coordinates
  | nonFiniteGradient iteration => "Non-finite gradient at iteration " ++ toString iteration
  | invalidConfig reason => "Invalid configuration: " ++ reason.message

end Downhill
