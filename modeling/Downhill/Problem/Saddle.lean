import Downhill.Linear.Matrix

/-! # A saddle between two minima

`c * u² / 2 + v⁴ / 4 - v² / 2`, stationary at the origin and at its two minima.
-/

namespace Downhill

structure Saddle (α : Type) where
  curvature : α

namespace Saddle

variable {α : Type} [Scalar α]

def default : Saddle α := ⟨1.0⟩

/-- The value at both minima. -/
def minValue : α := -0.25

def unknowns (_ : Saddle α) : Nat := 2

def value (p : Saddle α) (x : Vec α) : Except Fault α := do
  let u ← x.coordinate 0
  let v ← x.coordinate 1
  return 0.5 * p.curvature * u * u + 0.25 * Scalar.sq (Scalar.sq v) - 0.5 * v * v

def gradient (p : Saddle α) (x : Vec α) : Except Fault (Vec α) := do
  let u ← x.coordinate 0
  let v ← x.coordinate 1
  return [p.curvature * u, v * v * v - v]

def hessian (p : Saddle α) (x : Vec α) : Except Fault (Matrix α) := do
  let v ← x.coordinate 1
  return .diagonal [p.curvature, 3.0 * v * v - 1.0]

end Saddle

end Downhill
