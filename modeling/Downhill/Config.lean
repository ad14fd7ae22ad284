import Downhill.Scalar

/-! # Configuration

Parameters of the solvers, of their line search and of the diagonal shift. A constructor refuses
parameters that break its requirement; fields may still be set freely, and `validate` judges the
result.
-/

namespace Downhill

variable {α : Type}

/-- What a constructor asks of its arguments. -/
inductive Requirement where
  | initialStepPositive
  | alphaInUnitInterval
  | tauInUnitInterval
  | tolerancePositive
  | gammaAboveOne
  | floorPositive
  deriving DecidableEq, Repr

def Requirement.message : Requirement → String
  | initialStepPositive => "initial_step must be positive"
  | alphaInUnitInterval => "alpha must lie in (0, 1)"
  | tauInUnitInterval => "tau must lie in (0, 1)"
  | tolerancePositive => "tolerance must be positive"
  | gammaAboveOne => "gamma must be greater than 1"
  | floorPositive => "eigenvalue floor must be positive"

/-- Why a configuration is refused, with the offending value. -/
inductive ConfigError (α : Type) where
  | tolerance (value : α)
  | initialStep (value : α)
  | alpha (value : α)
  | tau (value : α)
  | gamma (value : α)
  | initialDelta (value : α)
  | maxDelta (value seed : α)
  /-- A document that does not hold a configuration. -/
  | unreadable
  /-- A reason that is known by its words only. -/
  | other (reason : String)
  deriving BEq, DecidableEq, Repr

/-- Whether a value lies strictly between zero and one. -/
def inUnitInterval [Scalar α] (a : α) : Bool := decide ((0.0 : α) < a) && decide (a < (1.0 : α))

/-! ## Line search -/

structure SearchConfig (α : Type) where
  initialStep : α
  /-- The share of the predicted decrease that a step has to reach. -/
  alpha : α
  /-- The factor by which a refused step shrinks. -/
  tau : α
  maxShrinks : Nat
  deriving BEq, DecidableEq, Repr

namespace SearchConfig

variable [Scalar α]

def default : SearchConfig α :=
  { initialStep := 1.0, alpha := 0.5, tau := 0.75, maxShrinks := 1000 }

def make (initialStep alpha tau : α) : Except Requirement (SearchConfig α) :=
  if ¬ (0.0 : α) < initialStep then .error .initialStepPositive
  else if !inUnitInterval alpha then .error .alphaInUnitInterval
  else if !inUnitInterval tau then .error .tauInUnitInterval
  else .ok { (default : SearchConfig α) with initialStep, alpha, tau }

def validate (config : SearchConfig α) : Except (ConfigError α) Unit :=
  if !(decide ((0.0 : α) < config.initialStep) && Scalar.isFinite config.initialStep) then
    .error (.initialStep config.initialStep)
  else if !inUnitInterval config.alpha then .error (.alpha config.alpha)
  else if !inUnitInterval config.tau then .error (.tau config.tau)
  else .ok ()

end SearchConfig

/-! ## Solvers -/

structure SolverConfig (α : Type) where
  tolerance : α
  maxIterations : Nat
  lineSearch : SearchConfig α
  deriving BEq, DecidableEq, Repr

namespace SolverConfig

variable [Scalar α]

def default : SolverConfig α :=
  { tolerance := 1e-4, maxIterations := 1000000, lineSearch := .default }

def make (tolerance : α) (maxIterations : Nat) : Except Requirement (SolverConfig α) :=
  if (0.0 : α) < tolerance then .ok { (default : SolverConfig α) with tolerance, maxIterations }
  else .error .tolerancePositive

/-- A relaxed tolerance and a short run. -/
def fast : SolverConfig α :=
  { (default : SolverConfig α) with tolerance := 1e-3, maxIterations := 10000 }

/-- A tight tolerance. -/
def highPrecision : SolverConfig α := { (default : SolverConfig α) with tolerance := 1e-8 }

/-- The bound on the squared norm of the gradient below which a run has converged. -/
def threshold (config : SolverConfig α) : α := 2.0 * config.tolerance * config.tolerance

def validate (config : SolverConfig α) : Except (ConfigError α) Unit :=
  if !(decide ((0.0 : α) < config.tolerance) && Scalar.isFinite config.tolerance) then
    .error (.tolerance config.tolerance)
  else config.lineSearch.validate

end SolverConfig

/-! ## Diagonal shift -/

/-- Where the shifts of an iteration start. -/
inductive Schedule where
  /-- From the seed, in every iteration. -/
  | resetEachIteration
  /-- One factor below the last shift, but not below the seed. -/
  | carryForward
  deriving DecidableEq, Repr

structure ShiftConfig (α : Type) where
  /-- The factor from one shift to the next. -/
  gamma : α
  initialDelta : α
  maxDelta : α
  schedule : Schedule
  deriving BEq, DecidableEq, Repr

namespace ShiftConfig

variable [Scalar α]

def default : ShiftConfig α :=
  { gamma := 10.0, initialDelta := 1e-4, maxDelta := 1e20, schedule := .resetEachIteration }

def make (gamma : α) : Except Requirement (ShiftConfig α) :=
  if (1.0 : α) < gamma then .ok { (default : ShiftConfig α) with gamma } else .error .gammaAboveOne

def validate (config : ShiftConfig α) : Except (ConfigError α) Unit :=
  if !(decide ((1.0 : α) < config.gamma) && Scalar.isFinite config.gamma) then
    .error (.gamma config.gamma)
  else if ¬ (0.0 : α) < config.initialDelta then .error (.initialDelta config.initialDelta)
  else if ¬ config.initialDelta ≤ config.maxDelta then
    .error (.maxDelta config.maxDelta config.initialDelta)
  else .ok ()

end ShiftConfig

end Downhill
