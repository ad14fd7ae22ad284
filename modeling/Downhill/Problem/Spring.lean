import Downhill.Linear.Projection

/-! # A spring in the plane

The energy of one spring between two nodes, by the squared length it has beyond its rest length.
The unknowns are the coordinates of the first node and then of the second.
-/

namespace Downhill

/-- Which second derivative a spring reports. -/
inductive HessianMode (α : Type) where
  | exact
  /-- The exact one with its eigenvalues raised to a floor. -/
  | projected (floor : α)

structure Spring (α : Type) where
  stiffness : α
  restLength : α
  mode : HessianMode α

namespace Spring

variable {α : Type} [Scalar α]

def unknowns (_ : Spring α) : Nat := 4

/-- The first node as seen from the second. -/
def offset (x : Vec α) : Except Fault (α × α) := do
  let x0 ← x.coordinate 0
  let x2 ← x.coordinate 2
  let x1 ← x.coordinate 1
  let x3 ← x.coordinate 3
  return (x0 - x2, x1 - x3)

def length (_ : Spring α) (x : Vec α) : Except Fault α := do
  let (dx, dy) ← offset x
  return Scalar.sqrt (dx * dx + dy * dy)

/-- By how much the squared length exceeds that at rest. -/
def strain (p : Spring α) (dx dy : α) : α := dx * dx + dy * dy - p.restLength * p.restLength

def value (p : Spring α) (x : Vec α) : Except Fault α := do
  let (dx, dy) ← offset x
  let s := p.strain dx dy
  return 0.5 * p.stiffness * s * s

def gradient (p : Spring α) (x : Vec α) : Except Fault (Vec α) := do
  let (dx, dy) ← offset x
  let scale := 2.0 * p.stiffness * p.strain dx dy
  return [scale * dx, scale * dy, (-scale) * dx, (-scale) * dy]

/-- The second derivative: one block for the offset, with opposite signs off the diagonal. -/
def exactHessian (p : Spring α) (x : Vec α) : Except Fault (Matrix α) := do
  let (dx, dy) ← offset x
  let s := p.strain dx dy
  let k2 := 2.0 * p.stiffness
  let b00 := k2 * (s + 2.0 * dx * dx)
  let b01 := k2 * 2.0 * dx * dy
  let b11 := k2 * (s + 2.0 * dy * dy)
  return ⟨[[b00, b01, -b00, -b01],
           [b01, b11, -b01, -b11],
           [-b00, -b01, b00, b01],
           [-b01, -b11, b01, b11]]⟩

def hessian [Kernel α] (p : Spring α) (x : Vec α) : Except Fault (Matrix α) := do
  let exact ← p.exactHessian x
  match p.mode with
  | .exact => return exact
  | .projected floor => return (← Projection.ofMatrix exact floor).matrix

end Spring

end Downhill
