import Downhill.Event
import Downhill.Objective

/-! # Recorder

An objective that forwards every evaluation to another one and keeps count. Every gradient leaves
an observation behind; the value that it needs is not counted.
-/

namespace Downhill

/-- The state of a recorder over the state of the objective inside. -/
structure Recorder (σ α : Type) where
  inner : σ
  valueEvaluations : Nat
  gradientEvaluations : Nat
  hessianEvaluations : Nat
  observations : Array (Observation α)

namespace Recorder

variable {σ α β : Type}

def start (inner : σ) : Recorder σ α := ⟨inner, 0, 0, 0, #[]⟩

/-- Forget what was recorded. -/
def reset (r : Recorder σ α) : Recorder σ α := start r.inner

/-! ## Recording -/

/-- Evaluate the objective inside. -/
def within (evaluation : Eval σ β) : Eval (Recorder σ α) β := fun r =>
  let (answer, inner) := evaluation r.inner
  (answer, { r with inner })

def countValue (r : Recorder σ α) : Recorder σ α :=
  { r with valueEvaluations := r.valueEvaluations + 1 }

def countGradient (r : Recorder σ α) : Recorder σ α :=
  { r with gradientEvaluations := r.gradientEvaluations + 1 }

def countHessian (r : Recorder σ α) : Recorder σ α :=
  { r with hessianEvaluations := r.hessianEvaluations + 1 }

/-- Note a value and the norm of a gradient. -/
def note (value gradientNorm : α) (r : Recorder σ α) : Recorder σ α :=
  { r with observations := r.observations.push ⟨r.observations.size, value, gradientNorm⟩ }

/-- The objective `problem`, recorded. -/
def objective [Scalar α] (problem : Objective σ α) : Objective (Recorder σ α) α where
  unknowns := problem.unknowns
  value x := do
    modify countValue
    within (problem.value x)
  gradient x := do
    modify countGradient
    let gradient ← within (problem.gradient x)
    let value ← within (problem.value x)
    modify (note value gradient.norm)
    return gradient
  hessian x := do
    modify countHessian
    within (problem.hessian x)

/-! ## Reading -/

def statistics (r : Recorder σ α) : Statistics α :=
  { iterations := r.observations.size - 1
    valueEvaluations := r.valueEvaluations
    gradientEvaluations := r.gradientEvaluations
    hessianEvaluations := r.hessianEvaluations
    first := r.observations[0]?
    last := r.observations.back? }

/-- The event that reports the statistics. -/
def summary (r : Recorder σ α) : Event α := .statistics r.statistics

end Recorder

end Downhill
