import Downhill.Linear.Cholesky
import Downhill.Linear.Spectrum

/-! # Factorisation and eigenproblem

The two dense problems that the solvers lean on, behind a class: over `Float` they are computed,
and a reading in exact arithmetic may supply exact answers instead.
-/

namespace Downhill

class Kernel (α : Type) where
  /-- The solution map of the symmetric system with the given lower triangle, if its matrix is
  positive definite. -/
  factorise : Matrix α → Option (Vec α → Vec α)
  /-- Eigenvalues and eigenvectors of the symmetric matrix with the given lower triangle. -/
  spectrum : Matrix α → Except Fault (Spectrum α)

/-- More rounds than any decomposition is given time for. -/
def spectrumRounds : Nat := Nat.pow 2 64

instance : Kernel Float where
  factorise m := (Cholesky.factor? m).map Cholesky.solve
  spectrum := Spectrum.compute spectrumRounds

namespace Matrix

variable {α : Type} [Kernel α]

/-- A solver for right-hand sides that fit, if the matrix is positive definite. -/
def solver? (m : Matrix α) : Except Fault (Option (Vec α → Except Fault (Vec α))) :=
  if m.isSquare then
    .ok ((Kernel.factorise m).map fun solve b =>
      if b.length = m.height then .ok (solve b) else .error .sizes)
  else .error .sizes

theorem isSquare_of_solver? {m : Matrix α} {solver : Option (Vec α → Except Fault (Vec α))}
    (h : m.solver? = .ok solver) : m.isSquare = true := by
  unfold solver? at h
  split at h
  · assumption
  · contradiction

/-- Whether the matrix, read by its lower triangle, is positive definite. -/
def isPositiveDefinite (m : Matrix α) : Except Fault Bool :=
  m.solver?.map Option.isSome

def spectrum (m : Matrix α) : Except Fault (Spectrum α) :=
  if m.isSquare && m.height != 0 then Kernel.spectrum m else .error .spectrum

end Matrix

end Downhill
