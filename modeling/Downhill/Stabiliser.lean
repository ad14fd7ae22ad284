import Downhill.Event
import Downhill.Linear.Projection
import Downhill.SolverError

/-! # Hessian stabilisers

A stabiliser finds a Newton direction from a Hessian that need not be positive definite: it solves
with a positive definite matrix in its place. A shift found in one iteration may be carried into
the next.
-/

namespace Downhill

/-- Why a computation stops without a result. -/
inductive Stop (α : Type) where
  | error (error : SolverError α)
  | fault (fault : Fault)
  deriving BEq, DecidableEq, Repr

/-- A search direction, and the size of the correction made to the Hessian; zero if none was. -/
structure Direction (α : Type) where
  vector : Vec α
  regularisation : α
  deriving BEq, DecidableEq, Repr

inductive Stabiliser (α : Type) where
  /-- Add growing multiples of the identity until the Hessian is positive definite. -/
  | diagonalShift (config : ShiftConfig α)
  /-- Raise the eigenvalues of the Hessian to a floor. -/
  | eigenvalueFloor (floor : α)

/-- One call of a stabiliser: its direction, the shift carried on, and what it reports. -/
structure Stabilised (α : Type) where
  outcome : Except (Stop α) (Direction α)
  carried : Option α
  events : Array (Event α)

namespace Stabiliser

variable {α : Type} [Scalar α]

def shiftByGamma (gamma : α) : Stabiliser α :=
  .diagonalShift { (ShiftConfig.default : ShiftConfig α) with gamma }

def atFloor (floor : α) : Except Requirement (Stabiliser α) :=
  if (0.0 : α) < floor then .ok (.eigenvalueFloor floor) else .error .floorPositive

def name : Stabiliser α → String
  | diagonalShift _ => "diagonal shift"
  | eigenvalueFloor _ => "eigenvalue floor"

def validate : Stabiliser α → Except (ConfigError α) Unit
  | diagonalShift config => config.validate
  | eigenvalueFloor _ => .ok ()

/-! ## Diagonal shift -/

/-- The first shift to try. -/
def seed (config : ShiftConfig α) (carried : Option α) : α :=
  match config.schedule, carried with
  | .carryForward, some last => Scalar.larger (last / config.gamma) config.initialDelta
  | _, _ => config.initialDelta

/-- How many shifts a search over doubles may try. There are no more doubles than that, so a search
that has tried as many only repeats itself. -/
def doubleAttempts : Nat := Nat.pow 2 64

variable [Kernel α]

/-- The first of the shifts `delta`, `delta * gamma`, … that makes the Hessian positive definite,
with a solver for the shifted system. At most `attempts` shifts are tried. -/
def firstShift (config : ShiftConfig α) (hessian : Matrix α) (iteration : Nat) :
    Nat → α → Array (Event α) →
      Except (Stop α) (α × (Vec α → Except Fault (Vec α))) × Array (Event α)
  | 0, _, events => (.error (.fault .unsettled), events)
  | attempts + 1, delta, events =>
      if delta ≤ config.maxDelta then
        match (hessian.shift delta).solver? with
        | .error fault => (.error (.fault fault), events)
        | .ok (some solve) => (.ok (delta, solve), events)
        | .ok none =>
            firstShift config hessian iteration attempts (delta * config.gamma)
              (events.push (.shiftRejected iteration delta))
      else (.error (.error (.regularisationOverflow delta config.maxDelta iteration)), events)

/-- The Newton direction of a solver for the Hessian or what stands in its place. -/
def newton (solve : Vec α → Except Fault (Vec α)) (gradient : Vec α) (regularisation : α) :
    Except (Stop α) (Direction α) :=
  match solve gradient.neg with
  | .error fault => .error (.fault fault)
  | .ok vector => .ok ⟨vector, regularisation⟩

def shiftDirection (config : ShiftConfig α) (attempts : Nat) (carried : Option α)
    (hessian : Matrix α) (gradient : Vec α) (iteration : Nat) : Stabilised α :=
  match hessian.solver? with
  | .error fault => ⟨.error (.fault fault), carried, #[]⟩
  | .ok (some solve) => ⟨newton solve gradient 0.0, none, #[]⟩
  | .ok none =>
      match firstShift config hessian iteration attempts (seed config carried) #[] with
      | (.error stop, events) => ⟨.error stop, carried, events⟩
      | (.ok (delta, solve), events) => ⟨newton solve gradient delta, some delta, events⟩

/-! ## Eigenvalue floor -/

/-- What is reported of a projection: the eigenvalues it has raised, if there are any. -/
def clampEvents (projection : Projection α) (iteration : Nat) : Array (Event α) :=
  if 0 < projection.clamped then
    #[.spectrumClamped iteration projection.clamped projection.minEigenvalue]
  else #[]

def floorDirection (floor : α) (hessian : Matrix α) (gradient : Vec α) (iteration : Nat) :
    Except (Stop α) (Direction α) × Array (Event α) :=
  match Projection.ofMatrix hessian floor with
  | .error fault => (.error (.fault fault), #[])
  | .ok projection =>
      let events := clampEvents projection iteration
      match projection.matrix.solver? with
      | .error fault => (.error (.fault fault), events)
      | .ok none => (.error (.error (.hessianNotPositiveDefinite iteration)), events)
      | .ok (some solve) => (newton solve gradient (projection.lift floor), events)

/-! ## Both -/

/-- The direction from a Hessian and a gradient, given the shift carried so far. -/
def direction (stabiliser : Stabiliser α) (attempts : Nat) (carried : Option α)
    (hessian : Matrix α) (gradient : Vec α) (iteration : Nat) : Stabilised α :=
  match stabiliser with
  | diagonalShift config => shiftDirection config attempts carried hessian gradient iteration
  | eigenvalueFloor floor =>
      let (outcome, events) := floorDirection floor hessian gradient iteration
      ⟨outcome, carried, events⟩

end Stabiliser

end Downhill
