import Downhill.Linear.Matrix

/-! # The Rosenbrock valley

`(a - u)² + b * (v - u²)²`, a curved valley with its floor along a parabola.
-/

namespace Downhill

structure Rosenbrock (α : Type) where
  a : α
  b : α

namespace Rosenbrock

variable {α : Type} [Scalar α]

def default : Rosenbrock α := ⟨1.0, 100.0⟩

def unknowns (_ : Rosenbrock α) : Nat := 2

def minimiser (p : Rosenbrock α) : Vec α := [p.a, p.a * p.a]

def value (p : Rosenbrock α) (x : Vec α) : Except Fault α := do
  let u ← x.coordinate 0
  let v ← x.coordinate 1
  return Scalar.sq (p.a - u) + p.b * Scalar.sq (v - u * u)

def gradient (p : Rosenbrock α) (x : Vec α) : Except Fault (Vec α) := do
  let u ← x.coordinate 0
  let v ← x.coordinate 1
  let r := v - u * u
  return [(-2.0) * (p.a - u) - 4.0 * p.b * u * r, 2.0 * p.b * r]

def hessian (p : Rosenbrock α) (x : Vec α) : Except Fault (Matrix α) := do
  let u ← x.coordinate 0
  let v ← x.coordinate 1
  let off := (-4.0) * p.b * u
  return ⟨[[2.0 - 4.0 * p.b * (v - u * u) + 8.0 * p.b * u * u, off], [off, 2.0 * p.b]]⟩

end Rosenbrock

end Downhill
