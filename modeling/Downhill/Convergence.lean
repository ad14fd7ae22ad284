import Downhill.Config
import Downhill.Linear.Vec

/-! # Convergence

The bookkeeping of a solve: completed iterations, the last squared norm of the gradient, and
whether it met the threshold.
-/

namespace Downhill

/-- The result of a solve; running out of iterations is a result too. -/
structure Solution (α : Type) where
  x : Vec α
  iterations : Nat
  converged : Bool
  value : α
  gradientNormSq : α
  deriving BEq, DecidableEq, Repr

def Solution.gradientNorm {α : Type} [Scalar α] (s : Solution α) : α :=
  Scalar.sqrt s.gradientNormSq

structure Convergence (α : Type) where
  iteration : Nat
  gradientNormSq : α
  converged : Bool
  threshold : α
  deriving BEq, DecidableEq, Repr

namespace Convergence

variable {α : Type}

/-- The state before anything has been observed. -/
def start [Scalar α] (config : SolverConfig α) : Convergence α :=
  { iteration := 0
    gradientNormSq := Scalar.infinity
    converged := false
    threshold := config.threshold }

/-- Take note of a squared norm of the gradient. -/
def observe [Scalar α] (state : Convergence α) (gradientNormSq : α) : Convergence α :=
  { state with gradientNormSq, converged := decide (gradientNormSq ≤ state.threshold) }

/-- Count a completed iteration. -/
def advance (state : Convergence α) : Convergence α :=
  { state with iteration := state.iteration + 1 }

/-- The result of a solve that ends in this state. -/
def solution (state : Convergence α) (x : Vec α) (value : α) : Solution α :=
  { x
    iterations := state.iteration
    converged := state.converged
    value
    gradientNormSq := state.gradientNormSq }

end Convergence

end Downhill
