import Downhill.Scalar
import Downhill.Fault

/-! # Vectors

Vectors are lists of scalars. Operations on two vectors fault unless their lengths agree.
-/

namespace Downhill

abbrev Vec (α : Type) := List α

namespace Vec

variable {α : Type} [Scalar α]

/-! ## Componentwise operations -/

/-- Combine two vectors entry by entry. -/
def zip (f : α → α → α) (x y : Vec α) : Except Fault (Vec α) :=
  if x.length = y.length then .ok (List.zipWith f x y) else .error .sizes

def neg (x : Vec α) : Vec α := x.map fun a => -a

def scale (x : Vec α) (s : α) : Vec α := x.map fun a => a * s

def sub (x y : Vec α) : Except Fault (Vec α) := zip (fun a b => a - b) x y

/-- The point reached from `x` by a step of length `t` along `d`. -/
def move (x : Vec α) (t : α) (d : Vec α) : Except Fault (Vec α) :=
  zip (fun a b => t * b + a) x d

def coordinate (x : Vec α) (i : Nat) : Except Fault α :=
  match x[i]? with
  | some a => .ok a
  | none => .error .coordinate

/-! ## Inner product

The products are summed in eight interleaved lanes as long as eight of them remain, the lanes are
folded in pairs, and what is left over is added one by one. The order fixes the rounding.
-/

/-- Partial sums of the eight lanes. -/
structure Lanes (α : Type) where
  (a0 a1 a2 a3 a4 a5 a6 a7 : α)

def Lanes.zero : Lanes α := ⟨0.0, 0.0, 0.0, 0.0, 0.0, 0.0, 0.0, 0.0⟩

def Lanes.total (s : Lanes α) : α :=
  0.0 + (s.a0 + s.a4) + (s.a1 + s.a5) + (s.a2 + s.a6) + (s.a3 + s.a7)

def sumLanes (s : Lanes α) : List α → α
  | p0 :: p1 :: p2 :: p3 :: p4 :: p5 :: p6 :: p7 :: rest =>
      sumLanes ⟨s.a0 + p0, s.a1 + p1, s.a2 + p2, s.a3 + p3,
        s.a4 + p4, s.a5 + p5, s.a6 + p6, s.a7 + p7⟩ rest
  | rest => rest.foldl (fun r p => r + p) s.total

/-- The inner product over the common length. -/
def inner (x y : Vec α) : α := sumLanes .zero (List.zipWith (fun a b => a * b) x y)

def dot (x y : Vec α) : Except Fault α :=
  if x.length = y.length then .ok (inner x y) else .error .sizes

def normSq (x : Vec α) : α := inner x x

def norm (x : Vec α) : α := Scalar.sqrt (normSq x)

end Vec

end Downhill
