import Downhill.Convergence
import Downhill.Stabiliser

/-! # Descent

The loop shared by all solvers. They differ in the rule that turns a point and its gradient into a
direction; the test for convergence, the line search and the step are the same.
-/

namespace Downhill

/-- How a solver finds its direction. -/
inductive Rule (α : Type) where
  /-- Against the gradient. -/
  | steepest
  /-- Newton's direction; the Hessian has to be positive definite. -/
  | newton
  /-- Newton's direction for a stabilised Hessian. -/
  | stabilised (stabiliser : Stabiliser α)

def Rule.name {α : Type} : Rule α → String
  | steepest => "gradient descent"
  | newton => "newton"
  | stabilised _ => "newton (projected hessian)"

/-- One iteration, seen after the line search and before the step. -/
structure View (α : Type) where
  iteration : Nat
  x : Vec α
  gradient : Vec α
  direction : Vec α
  step : α
  status : SearchStatus
  regularisation : α
  deriving BEq, DecidableEq, Repr

def View.slope {α : Type} [Scalar α] (view : View α) : Except Fault α :=
  Vec.dot view.gradient view.direction

/-! ## Sessions -/

/-- What a solve works on and leaves behind. -/
structure Session (σ α : Type) where
  objective : σ
  carried : Option α
  views : Array (View α)
  log : Array (Event α)

abbrev Solve (σ α β : Type) := ExceptT (Stop α) (StateM (Session σ α)) β

namespace Session

variable {σ α β : Type}

/-- A session at the start of a solve. A stabiliser that has been used before may bring a shift
along. -/
def start (objective : σ) (inherited : Option α := none) : Session σ α :=
  ⟨objective, inherited, #[], #[]⟩

/-- Evaluate the objective. -/
def evaluate (evaluation : Eval σ β) : Solve σ α β := fun session =>
  match evaluation session.objective with
  | (.ok answer, objective) => (.ok answer, { session with objective })
  | (.error fault, objective) => (.error (.fault fault), { session with objective })

/-- Go on with the answer of a computation that may fault. -/
def settle (answer : Except Fault β) : Solve σ α β :=
  match answer with
  | .ok answer => pure answer
  | .error fault => throw (.fault fault)

def fail (error : SolverError α) : Solve σ α β := throw (.error error)

def report (event : Event α) : Solve σ α Unit :=
  modify fun session => { session with log := session.log.push event }

def reportAll (events : List (Event α)) : Solve σ α Unit :=
  modify fun session => { session with log := session.log ++ events }

def present (view : View α) : Solve σ α Unit :=
  modify fun session => { session with views := session.views.push view }

/-- Take over the direction, the carried shift and the events of a stabiliser. -/
def take (stabilised : Stabilised α) : Solve σ α (Direction α) := do
  modify fun session =>
    { session with carried := stabilised.carried, log := session.log ++ stabilised.events }
  match stabilised.outcome with
  | .ok direction => return direction
  | .error stop => throw stop

end Session

open Session

variable {σ α : Type} [Scalar α] [Kernel α]

/-! ## Directions -/

/-- The direction at `x`. At most `attempts` shifts are tried to find it. -/
def Rule.direction (rule : Rule α) (attempts : Nat) (problem : Objective σ α)
    (x gradient : Vec α) (iteration : Nat) : Solve σ α (Direction α) :=
  match rule with
  | steepest => return ⟨gradient.neg, 0.0⟩
  | newton => do
      let hessian ← evaluate (problem.hessian x)
      match ← settle hessian.solver? with
      | some solve => return ⟨← settle (solve gradient.neg), 0.0⟩
      | none => fail (.hessianNotPositiveDefinite iteration)
  | stabilised stabiliser => do
      let hessian ← evaluate (problem.hessian x)
      let session ← get
      take (stabiliser.direction attempts session.carried hessian gradient iteration)

/-- Check the parameters that belong to the rule. -/
def Rule.prepare (rule : Rule α) : Solve σ α Unit :=
  match rule with
  | steepest => return ()
  | newton => return ()
  | stabilised stabiliser =>
      match stabiliser.validate with
      | .ok () => report (.stabiliserSelected stabiliser.name)
      | .error reason => fail (.invalidConfig reason)

/-! ## The loop -/

namespace Descent

/-- Evaluate the gradient at `x` and take note of its norm. -/
def look (problem : Objective σ α) (x : Vec α) (state : Convergence α) :
    Solve σ α (Vec α × Convergence α) := do
  let gradient ← evaluate (problem.gradient x)
  let gradientNormSq := gradient.normSq
  if Scalar.isFinite gradientNormSq then return (gradient, state.observe gradientNormSq)
  else fail (.nonFiniteGradient state.iteration)

/-- One step from a point that has not converged. -/
def step (rule : Rule α) (attempts : Nat) (problem : Objective σ α) (config : SearchConfig α)
    (x gradient : Vec α) (state : Convergence α) : Solve σ α (Vec α) := do
  let direction ← rule.direction attempts problem x gradient state.iteration
  let outcome ← evaluate (LineSearch.backtracking problem x direction.vector gradient config)
  reportAll outcome.warnings
  report (.iteration state.iteration state.gradientNormSq outcome.step outcome.shrinks
    direction.regularisation)
  present {
    iteration := state.iteration
    x
    gradient
    direction := direction.vector
    step := outcome.step
    status := outcome.status
    regularisation := direction.regularisation }
  settle (x.move outcome.step direction.vector)

/-- Step until the gradient is small, at most `remaining` times. -/
def loop (rule : Rule α) (attempts : Nat) (problem : Objective σ α) (config : SearchConfig α) :
    Nat → Vec α → Convergence α → Solve σ α (Vec α × Convergence α)
  | 0, x, state => return (x, state)
  | remaining + 1, x, state => do
      let (gradient, state) ← look problem x state
      if state.converged then return (x, state)
      else
        let next ← step rule attempts problem config x gradient state
        loop rule attempts problem config remaining next state.advance

/-- Judge the point where the loop stopped, if it stopped for want of iterations. -/
def judge (problem : Objective σ α) (x : Vec α) (state : Convergence α) :
    Solve σ α (Convergence α) :=
  if state.converged then return state
  else do
    let (_, state) ← look problem x state
    return state

/-- Minimise from `x0`. -/
def run (rule : Rule α) (attempts : Nat) (problem : Objective σ α) (config : SolverConfig α)
    (x0 : Vec α) : Solve σ α (Solution α) := do
  match config.validate with
  | .error reason => fail (.invalidConfig reason)
  | .ok () =>
      if x0.length ≠ problem.unknowns then
        fail (.dimensionMismatch problem.unknowns x0.length)
      else
        report (.solveStarted rule.name problem.unknowns)
        report (.banner rule.name)
        let (x, state) ← loop rule attempts problem config.lineSearch config.maxIterations x0
          (.start config)
        let state ← judge problem x state
        report (if state.converged then .converged state.iteration state.gradientNormSq
          else .capReached state.iteration state.gradientNormSq)
        let value ← evaluate (problem.value x)
        return state.solution x value

end Descent

/-- Solve in a session: check what the rule brings along, then run the loop. -/
def solve (rule : Rule α) (attempts : Nat) (problem : Objective σ α) (config : SolverConfig α)
    (x0 : Vec α) : Solve σ α (Solution α) := do
  rule.prepare
  Descent.run rule attempts problem config x0

/-- Solve with a tolerance and a number of iterations, and the default line search. -/
def solveTo (rule : Rule α) (attempts : Nat) (problem : Objective σ α) (tolerance : α)
    (maxIterations : Nat) (x0 : Vec α) : Solve σ α (Solution α) :=
  solve rule attempts problem
    { (SolverConfig.default : SolverConfig α) with tolerance, maxIterations } x0

end Downhill
