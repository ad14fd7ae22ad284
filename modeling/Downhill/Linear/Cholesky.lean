import Downhill.Linear.Matrix

/-! # Cholesky factors

A symmetric positive definite matrix is the product of a lower triangular matrix and its
transpose. Only the lower triangle of the matrix is read, and the factor is kept as the columns of
its own lower triangle.
-/

namespace Downhill

structure Cholesky (α : Type) where
  columns : List (Vec α)

namespace Cholesky

variable {α : Type} [Scalar α]

/-! ## Factorisation -/

/-- Take a finished column out of the columns to its right. -/
def eliminate : Vec α → List (Vec α) → List (Vec α)
  | l :: column, c :: rest =>
      List.zipWith (fun f a => (-l) * f + a) (l :: column) c :: eliminate column rest
  | _, rest => rest

/-- Factor the first `n` columns of a lower triangle; there is no factor once a pivot is not
positive. -/
def factorColumns : Nat → List (Vec α) → Option (List (Vec α))
  | n + 1, (d :: below) :: rest =>
      if (0.0 : α) < d then
        let root := Scalar.sqrt d
        let column := below.map fun a => a / root
        (factorColumns n (eliminate column rest)).map fun columns => (root :: column) :: columns
      else none
  | _, _ => some []

/-- The factor of a square matrix, if it is positive definite. -/
def factor? (m : Matrix α) : Option (Cholesky α) :=
  (factorColumns m.height m.lowerColumns).map fun columns => ⟨columns⟩

/-! ## Solution -/

/-- Solve with the lower triangle, from the first unknown on. -/
def forward : List (Vec α) → Vec α → Vec α
  | (l :: below) :: columns, b :: rest =>
      let c := b / l
      c :: forward columns (List.zipWith (fun f a => (-c) * f + a) below rest)
  | _, _ => []

/-- Solve with the transposed triangle, from the last unknown on. -/
def backward : List (Vec α) → Vec α → Vec α
  | (l :: below) :: columns, b :: rest =>
      let solved := backward columns rest
      (b - Vec.inner below solved) / l :: solved
  | _, _ => []

/-- The solution of the system whose matrix has this factor. -/
def solve (factor : Cholesky α) (b : Vec α) : Vec α :=
  backward factor.columns (forward factor.columns b)

end Cholesky

end Downhill
