/-! # Faults

Why an evaluation has no answer at all. A fault is not an outcome of the optimisation: it says that
operands did not fit, or that an iteration without a bound of its own was cut off.
-/

namespace Downhill

inductive Fault where
  /-- Operands of a linear-algebra operation differ in size, or a matrix is not square. -/
  | sizes
  /-- A point lacks a coordinate that is read. -/
  | coordinate
  /-- An eigenproblem is empty, not square, or breaks down. -/
  | spectrum
  /-- The allowance of rounds ran out before an answer was found. -/
  | unsettled
  deriving DecidableEq, Repr

end Downhill
