import Downhill.Linear.Kernel

/-! # Quadratics

Half a quadratic form minus a linear one. Its minimiser solves a linear system.
-/

namespace Downhill

structure Quadratic (α : Type) where
  matrix : Matrix α
  linear : Vec α
  square : matrix.isSquare = true
  height_eq : matrix.height = linear.length

/-- Why no quadratic can be made. -/
inductive QuadraticError where
  | notSquare
  | sizesDiffer (rows entries : Nat)
  deriving DecidableEq, Repr

def QuadraticError.message : QuadraticError → String
  | notSquare => "quadratic matrix must be square"
  | sizesDiffer rows entries =>
      "assertion \x60left == right\x60 failed: matrix and vector sizes differ\n  left: " ++
        toString rows ++ "\n right: " ++ toString entries

namespace Quadratic

variable {α : Type} [Scalar α]

/-- A quadratic from its matrix, which is made symmetric, and its linear term. -/
def make (matrix : Matrix α) (linear : Vec α) : Except QuadraticError (Quadratic α) :=
  if square : matrix.isSquare = true then
    if height_eq : matrix.height = linear.length then
      .ok {
        matrix := matrix.symmetrise
        linear
        square := Matrix.isSquare_symmetrise square
        height_eq := (Matrix.height_symmetrise square).trans height_eq }
    else .error (.sizesDiffer matrix.height linear.length)
  else .error .notSquare

/-- A sum of quadratics in one unknown each. -/
def ofDiagonal (d linear : Vec α) : Except QuadraticError (Quadratic α) :=
  make (.diagonal d) linear

def unknowns (q : Quadratic α) : Nat := q.linear.length

def value (q : Quadratic α) (x : Vec α) : Except Fault α := do
  let product ← q.matrix.mulVec x
  let form ← Vec.dot x product
  let linear ← Vec.dot q.linear x
  return 0.5 * form - linear

def gradient (q : Quadratic α) (x : Vec α) : Except Fault (Vec α) := do
  let product ← q.matrix.mulVec x
  Vec.sub product q.linear

def hessian (q : Quadratic α) (_ : Vec α) : Except Fault (Matrix α) := .ok q.matrix

/-- The point where the gradient vanishes, if the matrix is positive definite. -/
def minimiser [Kernel α] (q : Quadratic α) : Except Fault (Option (Vec α)) := do
  match ← q.matrix.solver? with
  | some solve => some <$> solve q.linear
  | none => return none

end Quadratic

end Downhill
