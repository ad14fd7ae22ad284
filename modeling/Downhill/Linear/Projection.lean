import Downhill.Linear.Kernel

/-! # Spectral projection

Raising the eigenvalues of a symmetric matrix to a floor gives a matrix that is positive definite
when the floor is positive.
-/

namespace Downhill

structure Projection (α : Type) where
  matrix : Matrix α
  /-- The smallest eigenvalue before the projection. -/
  minEigenvalue : α
  /-- How many eigenvalues were raised. -/
  clamped : Nat

namespace Projection

variable {α : Type} [Scalar α] [Kernel α]

/-- The floor that serves when none is given. -/
def defaultFloor : α := 1e-7

/-- The smallest of a list of values, from the first on. -/
def smallest : Vec α → α
  | [] => 0.0
  | first :: rest => rest.foldl (fun a b => if a ≤ b then a else b) first

/-- Put a matrix together from its spectrum. -/
def rebuild (values : Vec α) (vectors : Matrix α) : Except Fault (Matrix α) := do
  let scaled ← vectors.mul (Matrix.diagonal values)
  let product ← scaled.mul vectors.transpose
  return product.symmetrise

/-- Raise all eigenvalues below `floor`. -/
def ofMatrix (m : Matrix α) (floor : α) : Except Fault (Projection α) := do
  let spectrum ← m.spectrum
  let raised := spectrum.values.map fun value => if value < floor then floor else value
  let matrix ← rebuild raised spectrum.vectors
  return {
    matrix
    minEigenvalue := smallest spectrum.values
    clamped := spectrum.values.countP fun value => decide (value < floor) }

theorem exists_spectrum {m : Matrix α} {floor : α} {p : Projection α}
    (h : ofMatrix m floor = .ok p) : ∃ spectrum, m.spectrum = .ok spectrum := by
  cases hspectrum : m.spectrum with
  | ok spectrum => exact ⟨spectrum, rfl⟩
  | error fault =>
      simp only [ofMatrix, hspectrum, bind, Except.bind] at h
      contradiction

/-- How far the smallest eigenvalue lies below the floor, and zero if it does not. -/
def lift (p : Projection α) (floor : α) : α := Scalar.larger (floor - p.minEigenvalue) 0.0

end Projection

end Downhill
