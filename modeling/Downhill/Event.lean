import Downhill.LineSearch
import Downhill.Statistics

/-! # Events

What a solve reports while it runs.
-/

namespace Downhill

inductive Level where
  | trace
  | debug
  | info
  | warn
  deriving DecidableEq, Repr

def Level.name : Level → String
  | trace => "TRACE"
  | debug => "DEBUG"
  | info => "INFO"
  | warn => "WARN"

inductive Event (α : Type) where
  | stabiliserSelected (name : String)
  /-- Opens the scope in which all later events of a solve lie. -/
  | solveStarted (solver : String) (unknowns : Nat)
  | banner (solver : String)
  | shiftRejected (iteration : Nat) (delta : α)
  | spectrumClamped (iteration clamped : Nat) (minEigenvalue : α)
  | notDescent (slope : α)
  | shrinkLimit (step : α) (shrinks : Nat)
  | iteration (iteration : Nat) (gradientNormSq step : α) (shrinks : Nat) (regularisation : α)
  | converged (iterations : Nat) (gradientNormSq : α)
  | capReached (iterations : Nat) (gradientNormSq : α)
  | statistics (summary : Statistics α)
  deriving BEq, DecidableEq, Repr

/-- What a line search has to warn of. -/
def SearchOutcome.warnings {α : Type} (outcome : SearchOutcome α) : List (Event α) :=
  match outcome.status with
  | .accepted => []
  | .notDescent => [.notDescent outcome.slope]
  | .shrinkLimit => [.shrinkLimit outcome.step outcome.shrinks]

/-! ## Form of the report -/

/-- The value of a named field. -/
inductive Field (α : Type) where
  | scalar (value : α)
  | count (value : Nat)
  | text (value : String)
  deriving BEq, DecidableEq, Repr

namespace Event

variable {α : Type}

def level : Event α → Level
  | stabiliserSelected _ => .debug
  | solveStarted _ _ => .info
  | banner _ => .info
  | shiftRejected _ _ => .trace
  | spectrumClamped _ _ _ => .trace
  | notDescent _ => .warn
  | shrinkLimit _ _ => .warn
  | iteration _ _ _ _ _ => .debug
  | converged _ _ => .info
  | capReached _ _ => .warn
  | statistics _ => .info

def fields : Event α → List (String × Field α)
  | stabiliserSelected name => [("stabiliser", .text name)]
  | solveStarted solver unknowns => [("solver", .text solver), ("n_unknowns", .count unknowns)]
  | banner _ => []
  | shiftRejected i delta => [("iteration", .count i), ("delta", .scalar delta)]
  | spectrumClamped i clamped minEigenvalue =>
      [("iteration", .count i), ("clamped", .count clamped),
        ("min_eigenvalue", .scalar minEigenvalue)]
  | notDescent slope => [("directional_derivative", .scalar slope)]
  | shrinkLimit step shrinks => [("step", .scalar step), ("shrinks", .count shrinks)]
  | iteration i gradientNormSq step shrinks regularisation =>
      [("iteration", .count i), ("gradient_norm_sq", .scalar gradientNormSq),
        ("step", .scalar step), ("shrinks", .count shrinks),
        ("regularisation", .scalar regularisation)]
  | converged iterations gradientNormSq =>
      [("iterations", .count iterations), ("gradient_norm_sq", .scalar gradientNormSq)]
  | capReached iterations gradientNormSq =>
      [("iterations", .count iterations), ("gradient_norm_sq", .scalar gradientNormSq)]
  | statistics s =>
      [("iterations", .count s.iterations), ("f_evaluations", .count s.valueEvaluations),
        ("gradient_evaluations", .count s.gradientEvaluations),
        ("hessian_evaluations", .count s.hessianEvaluations)]

/-- The words of an event; the opening of a scope has a name instead. -/
def message : Event Float → String
  | stabiliserSelected _ => "stabiliser selected"
  | solveStarted _ _ => "solve"
  | banner solver => "******** " ++ solver ++ " ********"
  | shiftRejected _ _ => "shifted hessian still indefinite"
  | spectrumClamped _ _ _ => "clamped hessian eigenvalues"
  | notDescent _ => "direction increases the objective, returning initial step"
  | shrinkLimit _ _ => "line search hit the shrink limit without sufficient decrease"
  | iteration _ _ _ _ _ => "iteration"
  | converged iterations _ => "converged after " ++ toString iterations ++ " iterations"
  | capReached _ _ => "reached maximum iterations without convergence"
  | statistics s => "optimisation statistics\n" ++ s.text

end Event

end Downhill
