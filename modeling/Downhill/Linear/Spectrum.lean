import Downhill.Linear.Tridiagonal

/-! # Eigenvalues and eigenvectors

Implicitly shifted rotations drive the entries beside the diagonal of a tridiagonal matrix to
zero. A block of two is diagonalised directly. Eigenvalues come in the order in which the
diagonal holds them.
-/

namespace Downhill

/-- The eigenvalues of a symmetric matrix and, as columns, the eigenvectors that go with them. -/
structure Spectrum (α : Type) where
  values : Vec α
  vectors : Matrix α

namespace Tridiagonal

variable {α : Type} [Scalar α]

def diagonalAt (t : Tridiagonal α) (i : Nat) : α := t.diagonal.getD i 0.0

def offDiagonalAt (t : Tridiagonal α) (i : Nat) : α := t.offDiagonal.getD i 0.0

def setDiagonal (t : Tridiagonal α) (i : Nat) (a : α) : Tridiagonal α :=
  { t with diagonal := t.diagonal.set i a }

def setOffDiagonal (t : Tridiagonal α) (i : Nat) (a : α) : Tridiagonal α :=
  { t with offDiagonal := t.offDiagonal.set i a }

/-- Rotate two neighbouring columns of the basis. -/
def rotate (t : Tridiagonal α) (i : Nat) (c s : α) : Tridiagonal α :=
  let x := t.basis.getD i []
  let y := t.basis.getD (i + 1) []
  let first := List.zipWith (fun a b => a * c + s * b) x y
  let second := List.zipWith (fun a b => (-s) * a + b * c) x y
  { t with basis := (t.basis.set i first).set (i + 1) second }

/-! ## Blocks that are not yet diagonal -/

/-- The size below which the entry between rows `i` and `i + 1` counts as zero. -/
def threshold (t : Tridiagonal α) (i : Nat) : α :=
  Scalar.epsilon * (Scalar.abs (t.diagonalAt (i + 1)) + Scalar.abs (t.diagonalAt i))

/-- The last row, from `e` up, that is still joined to the one above it. -/
def blockEnd (t : Tridiagonal α) : Nat → Nat
  | 0 => 0
  | k + 1 =>
      if t.threshold k < Scalar.abs (t.offDiagonalAt k) then k + 1 else t.blockEnd k

/-- The first row of the block that holds row `k`, where a negligible entry cuts the block off
and is cleared. -/
def blockStart (t : Tridiagonal α) : Nat → Nat × Tridiagonal α
  | 0 => (0, t)
  | k + 1 =>
      if t.offDiagonalAt k == 0.0 || decide (Scalar.abs (t.offDiagonalAt k) ≤ t.threshold k) then
        (k + 1, t.setOffDiagonal k 0.0)
      else t.blockStart k

/-- The rows of the last block up to row `e`; a first row equal to the last means that none is
left. -/
def block (t : Tridiagonal α) (e : Nat) : Nat × Nat × Tridiagonal α :=
  match t.blockEnd e with
  | 0 => (0, 0, t)
  | k + 1 =>
      let (start, t) := t.blockStart k
      (start, k + 1, t)

/-! ## Rotations -/

/-- The shift that draws a block towards its last eigenvalue, from its last two diagonal entries
and the entry between them. -/
def wilkinson (tmm tnn tmn : α) : α :=
  let q := tmn * tmn
  if q == 0.0 then tnn
  else
    let d := (tmm - tnn) * 0.5
    tnn - q / (d + Scalar.signum d * Scalar.sqrt (d * d + q))

/-- Chase the bulge `y` beside `x` through `count` pairs of rows from row `i`; `inner` tells
whether a pair precedes. -/
def chase : Nat → Nat → Bool → α → α → Tridiagonal α → Tridiagonal α
  | 0, _, _, _, _, t => t
  | count + 1, i, inner, x, y, t =>
      if y == 0.0 then t
      else
        let size := modulus x
        let length := Scalar.sqrt (size * size + y * y)
        let c := size / length
        let signed := side x * length
        let s := (-y) / signed
        let t := if inner then t.setOffDiagonal (i - 1) signed else t
        let mii := t.diagonalAt i
        let mjj := t.diagonalAt (i + 1)
        let mij := t.offDiagonalAt i
        let cc := c * c
        let ss := s * s
        let cs := c * s
        let b := cs * 2.0 * mij
        let entry := cs * (mii - mjj) + mij * (cc - ss)
        let t := ((t.setDiagonal i ((cc * mii + ss * mjj) - b)).setDiagonal (i + 1)
          ((ss * mii + cc * mjj) + b)).setOffDiagonal i entry
        match count with
        | 0 => t.rotate i c (-s)
        | rest + 1 =>
            let next := t.offDiagonalAt (i + 1)
            chase (rest + 1) (i + 1) true entry ((-s) * next)
              ((t.setOffDiagonal (i + 1) (next * c)).rotate i c (-s))

/-- One sweep of rotations over the block of rows `start` to `e`. -/
def sweep (t : Tridiagonal α) (start e : Nat) : Tridiagonal α :=
  let shift := wilkinson (t.diagonalAt (e - 1)) (t.diagonalAt e) (t.offDiagonalAt (e - 1))
  chase (e - start) start false (t.diagonalAt start - shift) (t.offDiagonalAt start) t

/-- Diagonalise the block of the two rows from `start`. -/
def split (t : Tridiagonal α) (start : Nat) : Except Fault (Tridiagonal α) :=
  let h00 := t.diagonalAt start
  let h := t.offDiagonalAt start
  let h11 := t.diagonalAt (start + 1)
  let v := (h00 - h11) * 0.5
  let discriminant := h * h + v * v
  if (0.0 : α) ≤ discriminant then
    let mean := (h00 + h11) * 0.5
    let root := Scalar.sqrt discriminant
    let larger := mean + root
    let t := (t.setDiagonal start larger).setDiagonal (start + 1) (mean - root)
    let x := larger - h11
    let size := modulus x
    let length := Scalar.sqrt (size * size + h * h)
    if Scalar.epsilon < length then
      .ok (t.rotate start (size / length) (h / (side x * length)))
    else .ok t
  else .error .spectrum

/-- Work off the blocks that end at row `e` or before, in at most the given number of rounds. -/
def settle : Nat → Nat → Nat → Tridiagonal α → Except Fault (Tridiagonal α)
  | 0, _, _, _ => .error .unsettled
  | rounds + 1, start, e, t =>
      if e = start then .ok t
      else if e = start + 1 then
        match t.split start with
        | .error fault => .error fault
        | .ok t =>
            let (start, e, t) := t.block (e - 1)
            settle rounds start e t
      else
        let t := t.sweep start e
        let bound := Scalar.epsilon *
          (Scalar.abs (t.diagonalAt (e - 1)) + Scalar.abs (t.diagonalAt e))
        let e := if Scalar.abs (t.offDiagonalAt (e - 1)) ≤ bound then e - 1 else e
        let (start, e, t) := t.block e
        settle rounds start e t

end Tridiagonal

namespace Spectrum

variable {α : Type} [Scalar α]

/-- The largest absolute value of a list of entries, as comparisons leave it. -/
def largestAbs : List α → α
  | [] => 0.0
  | first :: rest =>
      rest.foldl (fun a e => if Scalar.abs e ≤ a then a else Scalar.abs e) (Scalar.abs first)

/-- The spectrum of a square matrix that is not empty, in at most `rounds` rounds. The lower
triangle is decomposed; the upper one counts only for the scale. -/
def compute (rounds : Nat) (m : Matrix α) : Except Fault (Spectrum α) :=
  let scale := largestAbs m.entries
  let lower := if scale == 0.0 then m.lowerColumns
    else m.lowerColumns.map fun column => column.map fun a => a / scale
  let t := Tridiagonal.ofLowerColumns lower
  let (start, e, t) := t.block (t.diagonal.length - 1)
  match Tridiagonal.settle rounds start e t with
  | .error fault => .error fault
  | .ok t => .ok ⟨t.diagonal.map fun a => a * scale, Matrix.transpose ⟨t.basis⟩⟩

end Spectrum

end Downhill
