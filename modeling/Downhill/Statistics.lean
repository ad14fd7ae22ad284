import Downhill.Decimal.Text

/-! # Statistics of a solve

What a recorder has seen: an observation for every gradient, and a summary of the counts.
-/

namespace Downhill

/-- One observation, taken where the gradient was evaluated. -/
structure Observation (α : Type) where
  iteration : Nat
  value : α
  gradientNorm : α
  deriving BEq, DecidableEq, Repr

structure Statistics (α : Type) where
  iterations : Nat
  valueEvaluations : Nat
  gradientEvaluations : Nat
  hessianEvaluations : Nat
  first : Option (Observation α)
  last : Option (Observation α)
  deriving BEq, DecidableEq, Repr

open Decimal in
/-- A number at the right edge of its column. -/
def Statistics.column (x : Float) : String := alignRight 13 (sixPlacesText x)

/-- The lines of the summary that come before the time it took. -/
def Statistics.lines (s : Statistics Float) : List String :=
  let counts :=
    ["iterations:            " ++ toString s.iterations,
      "f evaluations:         " ++ toString s.valueEvaluations,
      "gradient evaluations:  " ++ toString s.gradientEvaluations,
      "hessian evaluations:   " ++ toString s.hessianEvaluations]
  match s.first, s.last with
  | some first, some last =>
      counts ++
        ["initial f:             " ++ column first.value,
          "final f:               " ++ column last.value,
          "final |grad|:          " ++ column last.gradientNorm]
  | _, _ => counts

def Statistics.text (s : Statistics Float) : String := "\n".intercalate s.lines

/-- The summary up to the time it took, which is for the caller to fill in. -/
def Statistics.summary (s : Statistics Float) : String :=
  "\n".intercalate (s.lines ++ ["elapsed:"])

end Downhill
