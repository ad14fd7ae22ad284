import Downhill.Objective
import Downhill.Problem.Quadratic
import Downhill.Problem.Rosenbrock
import Downhill.Problem.Saddle
import Downhill.Problem.Spring

/-! # Problems

The objectives that come with the library.
-/

namespace Downhill

inductive Problem (α : Type) where
  | quadratic (p : Quadratic α)
  | rosenbrock (p : Rosenbrock α)
  | saddle (p : Saddle α)
  | spring (p : Spring α)

namespace Problem

variable {α : Type} [Scalar α] [Kernel α]

def unknowns : Problem α → Nat
  | quadratic p => p.unknowns
  | rosenbrock p => p.unknowns
  | saddle p => p.unknowns
  | spring p => p.unknowns

def value : Problem α → Vec α → Except Fault α
  | quadratic p => p.value
  | rosenbrock p => p.value
  | saddle p => p.value
  | spring p => p.value

def gradient : Problem α → Vec α → Except Fault (Vec α)
  | quadratic p => p.gradient
  | rosenbrock p => p.gradient
  | saddle p => p.gradient
  | spring p => p.gradient

def hessian : Problem α → Vec α → Except Fault (Matrix α)
  | quadratic p => p.hessian
  | rosenbrock p => p.hessian
  | saddle p => p.hessian
  | spring p => p.hessian

/-- The problem as an objective. -/
def objective (p : Problem α) (σ : Type) : Objective σ α :=
  .ofAnswers p.unknowns p.value p.gradient p.hessian

end Problem

end Downhill
