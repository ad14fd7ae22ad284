import Downhill.Linear.Matrix

/-! # Reduction to tridiagonal form

Householder reflections bring a symmetric matrix, given by the columns of its lower triangle, to
tridiagonal form. The accumulated reflections are the columns of an orthogonal basis.
-/

namespace Downhill

/-- A symmetric tridiagonal matrix with the basis in which it is written. -/
structure Tridiagonal (α : Type) where
  diagonal : Vec α
  /-- The entries beside the diagonal. -/
  offDiagonal : Vec α
  /-- The columns of the basis. -/
  basis : List (Vec α)

namespace Tridiagonal

variable {α : Type} [Scalar α]

/-- One with the sign of a scalar, either zero counting as positive. -/
def side (x : α) : α := if (0.0 : α) ≤ x then 1.0 else -1.0

def modulus (x : α) : α := if (0.0 : α) ≤ x then x else -x

/-! ## One reflection -/

/-- A reflection axis, the entry that it leaves beside the diagonal, and whether it moves
anything. -/
structure Reflection (α : Type) where
  axis : Vec α
  entry : α
  moves : Bool

/-- The reflection that maps a column to a multiple of the first unit vector. -/
def Reflection.ofColumn : Vec α → Reflection α
  | [] => ⟨[], 0.0, false⟩
  | a :: rest =>
      let normSq := Vec.normSq (a :: rest)
      let norm := Scalar.sqrt normSq
      let signed := side a * norm
      let factor := (normSq + modulus a * norm) * 2.0
      let axis := (a + signed) :: rest
      if factor == 0.0 then ⟨axis, signed, false⟩
      else
        let root := Scalar.sqrt factor
        let scaled := axis.map fun x => x / root
        let length := Vec.norm scaled
        ⟨scaled.map fun x => x / length, -signed, true⟩

/-- Add twice the symmetric matrix times the axis to `p`, for the columns after the first. -/
def addTwice : List (Vec α) → Vec α → Vec α → Vec α
  | (s :: below) :: columns, a :: axis, p :: rest =>
      (p + 2.0 * Vec.inner (s :: below) (a :: axis)) ::
        addTwice columns axis (List.zipWith (fun x q => (2.0 * a) * x + q) below rest)
  | _, _, _ => []

/-- Twice the symmetric matrix times the axis. -/
def twiceTimes : List (Vec α) → Vec α → Vec α
  | (s :: below) :: columns, a :: axis =>
      ((2.0 * a) * s + 2.0 * Vec.inner below axis) ::
        addTwice columns axis (below.map fun x => (2.0 * a) * x)
  | _, _ => []

/-- Add `t` times the outer product of `x` and `y` to a lower triangle. -/
def addOuter (t : α) : Vec α → Vec α → List (Vec α) → List (Vec α)
  | x :: xs, y :: ys, column :: columns =>
      List.zipWith (fun q s => (t * y) * q + s) (x :: xs) column :: addOuter t xs ys columns
  | _, _, columns => columns

/-- Reflect a lower triangle from both sides. -/
def reflectBoth (axis : Vec α) (lower : List (Vec α)) : List (Vec α) :=
  let p := twiceTimes lower axis
  let d := Vec.inner axis p
  addOuter (d * 2.0) axis axis (addOuter (-1.0) axis p (addOuter (-1.0) p axis lower))

/-- Reflect a vector, up to the sign of the entry that the reflection left. -/
def Reflection.apply (r : Reflection α) (x : Vec α) : Vec α :=
  let sign := Scalar.signum r.entry
  let f := Vec.inner r.axis x * (sign * (-2.0))
  List.zipWith (fun a c => f * a + sign * c) r.axis x

/-! ## The whole reduction -/

/-- The diagonal of the tridiagonal form and the reflections that lead to it. -/
def reduce : Nat → List (Vec α) → Vec α × List (Reflection α)
  | n + 1, (d :: a :: below) :: rest =>
      let r := Reflection.ofColumn (a :: below)
      let (diagonal, reflections) :=
        reduce n (if r.moves then reflectBoth r.axis rest else rest)
      (d :: diagonal, r :: reflections)
  | _, (d :: _) :: _ => ([d], [])
  | _, _ => ([], [])

/-- The columns of the product of the reflections. -/
def assemble : List (Reflection α) → List (Vec α)
  | [] => [[1.0]]
  | r :: reflections =>
      (1.0 :: r.apply (r.axis.map fun _ => 0.0)) ::
        (assemble reflections).map fun column => 0.0 :: r.apply column

/-- The tridiagonal form of a symmetric matrix. -/
def ofLowerColumns (columns : List (Vec α)) : Tridiagonal α :=
  let (diagonal, reflections) := reduce columns.length columns
  ⟨diagonal, reflections.map fun r => Scalar.abs r.entry, assemble reflections⟩

end Tridiagonal

end Downhill
