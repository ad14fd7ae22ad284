/-! # Scalars

Every solver is written once, over a class of scalars. At `Float` it runs; a reading in exact
arithmetic is another instance.
-/

namespace Downhill

/-- The arithmetic of the solvers. No law is asked for: a comparison with something that is not a
number may be false both ways. -/
class Scalar (α : Type) extends Add α, Sub α, Mul α, Div α, Neg α, LT α, LE α, BEq α,
    OfScientific α where
  decLt : ∀ a b : α, Decidable (a < b)
  decLe : ∀ a b : α, Decidable (a ≤ b)
  sqrt : α → α
  abs : α → α
  /-- One with the sign of the argument, zeros included. -/
  signum : α → α
  isFinite : α → Bool
  /-- Stands above every finite value. -/
  infinity : α
  /-- The gap between one and the next larger scalar. -/
  epsilon : α

instance Scalar.decidableLt {α : Type} [Scalar α] (a b : α) : Decidable (a < b) := Scalar.decLt a b

instance Scalar.decidableLe {α : Type} [Scalar α] (a b : α) : Decidable (a ≤ b) := Scalar.decLe a b

namespace Scalar

variable {α : Type} [Scalar α]

/-- The larger of two scalars; if one of them is not a number, the other. -/
def larger (a b : α) : α :=
  if a < b then b else if a == a then a else b

/-- The square of a scalar. -/
def sq (a : α) : α := a * a

end Scalar

/-! ## Double precision -/

/-- One with the sign of a double; not a number stays what it is. -/
def floatSignum (x : Float) : Float :=
  if x.isNaN then x else if x.toBits < 0x8000000000000000 then 1.0 else -1.0

instance : Scalar Float where
  decLt := inferInstance
  decLe := inferInstance
  sqrt := Float.sqrt
  abs := Float.abs
  signum := floatSignum
  isFinite := Float.isFinite
  infinity := 1.0 / 0.0
  epsilon := 2.220446049250313e-16

end Downhill
