import Downhill.Decimal.Text
import Downhill.Linear.Vec
import Downhill.Sampling.Words

/-! # Random start points

Start points with coordinates spread evenly over a closed range. Each coordinate takes one word
from a source of 64-bit words.
-/

namespace Downhill

/-- Scalars that words can be turned into. -/
class Drawable (α : Type) extends Scalar α where
  /-- The upper 52 bits of a word as a fraction of one. -/
  fraction : UInt64 → α
  /-- The largest fraction. -/
  topFraction : α
  /-- The next smaller scalar, for positive ones. -/
  predecessor : α → α
  /-- How many predecessors a positive scalar has. -/
  rank : α → Nat

instance : Drawable Float where
  fraction w := (w >>> 12).toFloat * 2.220446049250313e-16
  topFraction := 1.0 - 2.220446049250313e-16
  predecessor x := Float.ofBits (x.toBits - 1)
  rank x := x.toBits.toNat

/-- Why no point can be drawn from a range. -/
inductive RangeError (α : Type) where
  | empty (lo hi : α)
  | notFinite
  deriving BEq, DecidableEq, Repr

/-- The wording of an empty range; a range that is not finite has none. -/
def RangeError.message? : RangeError Float → Option String
  | empty lo hi =>
      some ("empty sampling range [" ++ Decimal.plainText lo ++ ", " ++ Decimal.plainText hi ++ "]")
  | notFinite => none

/-- Draws from a generator. If one is refused, the generator is left where it got to. -/
abbrev Draw (γ α β : Type) := ExceptT (RangeError α) (StateM γ) β

/-- What is drawn, and the generator after it. -/
def Draw.answer {γ α β : Type} (draw : Draw γ α β) (g : γ) : Except (RangeError α) (β × γ) :=
  match draw g with
  | (.ok x, g) => .ok (x, g)
  | (.error e, _) => .error e

namespace Sampling

variable {α γ : Type} [Drawable α]

/-- The range that serves when none is given. -/
def defaultRange : α × α := (-10.0, 10.0)

/-! ## Scale of a range -/

/-- The largest scalar up to `scale` with which the largest fraction stays below `hi`. -/
def fit (lo hi : α) : Nat → α → α
  | 0, scale => scale
  | count + 1, scale =>
      if hi < scale * Drawable.topFraction + lo then
        fit lo hi count (Drawable.predecessor scale)
      else scale

/-- What fractions are multiplied by. -/
def scaleOf (lo hi : α) : Except (RangeError α) α :=
  let scale := (hi - lo) / Drawable.topFraction
  if Scalar.isFinite lo && Scalar.isFinite hi && Scalar.isFinite scale then
    .ok (fit lo hi (Drawable.rank scale) scale)
  else .error .notFinite

/-! ## Points -/

/-- The coordinate that a word stands for. -/
def place (lo scale : α) (word : UInt64) : α := Drawable.fraction word * scale + lo

/-- Draw `n` coordinates from a generator of words. -/
def coordinates (next : γ → UInt64 × γ) (lo scale : α) : Nat → γ → Vec α × γ
  | 0, g => ([], g)
  | n + 1, g =>
      let (word, g) := next g
      let (rest, g) := coordinates next lo scale n g
      (place lo scale word :: rest, g)

/-- Draw a point with `n` coordinates from `lo` to `hi`. -/
def drawPoint (next : γ → UInt64 × γ) (n : Nat) (lo hi : α) : Draw γ α (Vec α) := fun g =>
  if lo ≤ hi then
    match n with
    | 0 => (.ok [], g)
    | n + 1 =>
        match scaleOf lo hi with
        | .ok scale =>
            let (x, g) := coordinates next lo scale (n + 1) g
            (.ok x, g)
        | .error e => (.error e, g)
  else (.error (.empty lo hi), g)

/-- Draw `count` points, one after the other. -/
def drawPoints (next : γ → UInt64 × γ) (n : Nat) (lo hi : α) : Nat → Draw γ α (List (Vec α))
  | 0 => return []
  | count + 1 => do
      let first ← drawPoint next n lo hi
      let rest ← drawPoints next n lo hi count
      return first :: rest

def point (next : γ → UInt64 × γ) (n : Nat) (lo hi : α) (g : γ) :
    Except (RangeError α) (Vec α × γ) :=
  (drawPoint next n lo hi).answer g

def points (next : γ → UInt64 × γ) (n : Nat) (lo hi : α) (count : Nat) (g : γ) :
    Except (RangeError α) (List (Vec α) × γ) :=
  (drawPoints next n lo hi count).answer g

end Sampling

end Downhill
