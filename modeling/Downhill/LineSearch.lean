import Downhill.Config
import Downhill.Objective

/-! # Backtracking line search

Starting from the configured step, a step is shrunk until the objective falls by a share of what
its slope promises. A round-off allowance lets steps pass that meet the bound with equality, but
none that raises the objective.
-/

namespace Downhill

inductive SearchStatus where
  | accepted
  /-- The slope is positive; the first step was returned without a look at the objective. -/
  | notDescent
  /-- No step was acceptable within the allowed number of shrinks. -/
  | shrinkLimit
  deriving DecidableEq, Repr

structure SearchOutcome (α : Type) where
  step : α
  status : SearchStatus
  shrinks : Nat
  /-- The inner product of gradient and direction. -/
  slope : α
  deriving BEq, DecidableEq, Repr

namespace LineSearch

variable {σ α : Type} [Scalar α]

/-! ## Acceptance -/

/-- What the bound on the decrease concedes to round-off. -/
def slack (fx decrease : α) : α :=
  (10.0 * Scalar.epsilon) * (Scalar.abs fx + Scalar.abs decrease)

/-- Whether a trial value lies below the value at the start; on a flat direction it may equal it. -/
def descends (fx ft slope : α) : Bool := decide (ft < fx) || (ft == fx && slope == (0.0 : α))

/-- Whether the value `ft` at step `t` is acceptable. -/
def acceptable (alpha fx slope t ft : α) : Bool :=
  let decrease := alpha * t * slope
  descends fx ft slope && decide (ft ≤ fx + decrease + slack fx decrease)

/-! ## The search -/

/-- Try the step `t` and, as long as `remaining` allows, smaller ones. -/
def shrink (problem : Objective σ α) (config : SearchConfig α) (x d : Vec α) (fx slope : α) :
    Nat → Nat → α → Eval σ (SearchOutcome α)
  | remaining, shrinks, t => do
      let trial ← Eval.pure (x.move t d)
      let ft ← problem.value trial
      if acceptable config.alpha fx slope t ft then
        return { step := t, status := .accepted, shrinks, slope }
      else
        match remaining with
        | 0 => return { step := t, status := .shrinkLimit, shrinks, slope }
        | rest + 1 => shrink problem config x d fx slope rest (shrinks + 1) (t * config.tau)

/-- Search along `d` from `x`, where the objective has the given gradient. -/
def backtracking (problem : Objective σ α) (x d gradient : Vec α) (config : SearchConfig α) :
    Eval σ (SearchOutcome α) := do
  let slope ← Eval.pure (Vec.dot gradient d)
  if (0.0 : α) < slope then
    return { step := config.initialStep, status := .notDescent, shrinks := 0, slope }
  else
    let fx ← problem.value x
    shrink problem config x d fx slope config.maxShrinks 0 config.initialStep

end LineSearch

end Downhill
