/-! # Significant digits

The digits of a positive dyadic number: the shortest ones that single it out among its neighbours,
or a fixed number of them. All arithmetic is exact.
-/

namespace Downhill

/-- The positive number `significand * 2 ^ exponent` with the interval of numbers that round to it:
half a step on either side, below only a quarter if the step shrinks there. The ends belong to it
when the significand is even. -/
structure Dyadic where
  significand : Nat
  exponent : Int
  narrowBelow : Bool
  deriving DecidableEq, Repr

/-- The number `0.d₁d₂… * 10 ^ point`. -/
structure Decimal where
  digits : List Char
  point : Int
  deriving DecidableEq, Repr

namespace Decimal

/-! ## Digits of a natural number -/

def digitsOf (n : Nat) : List Char := Nat.toDigits 10 n

def digitCount (n : Nat) : Nat := (digitsOf n).length

/-- Drop zeros from the end. -/
def trim (digits : List Char) : List Char :=
  (digits.reverse.dropWhile fun c => c == '0').reverse

/-- Read `n * 10 ^ exponent`. -/
def ofScaled (n : Nat) (exponent : Int) : Decimal :=
  ⟨trim (digitsOf n), exponent + digitCount n⟩

def zero : Decimal := ⟨['0'], 1⟩

end Decimal

namespace Dyadic

/-! ## Position on a decimal grid -/

/-- The power of ten just above `num / den`. -/
def magnitude (num den : Nat) : Int :=
  if den ≤ num then Decimal.digitCount (num / den)
  else 1 - (Decimal.digitCount ((den - 1) / num) : Int)

/-- A number and its interval, counted in units of which `unit` make one step of a grid. -/
structure Scaled where
  value : Nat
  low : Nat
  high : Nat
  unit : Nat

/-- Four times the number as a fraction without a sign in its exponents. -/
def numerator (x : Dyadic) : Nat := x.significand <<< x.exponent.toNat

def denominator (x : Dyadic) : Nat := 1 <<< (-x.exponent).toNat

def decimalMagnitude (x : Dyadic) : Int := magnitude x.numerator x.denominator

/-- The number seen on the grid with step `10 ^ e`. -/
def onGrid (x : Dyadic) (e : Int) : Scaled :=
  let half := 2 <<< x.exponent.toNat
  let below := if x.narrowBelow then 1 <<< x.exponent.toNat else half
  let value := 4 * x.numerator
  let factor := Nat.pow 10 (-e).toNat
  { value := value * factor
    low := (value - below) * factor
    high := (value + half) * factor
    unit := 4 * x.denominator * Nat.pow 10 e.toNat }

/-! ## Shortest digits -/

/-- The grid point in the interval that is nearest to the number, the upper one on a tie. -/
def nearest (closed : Bool) (s : Scaled) : Option Nat :=
  let c := s.value / s.unit
  let down := c * s.unit
  let up := (c + 1) * s.unit
  let downHits := s.low < down || (closed && s.low == down)
  let upHits := up < s.high || (closed && up == s.high)
  if downHits && upHits then
    some (if 2 * (s.value - down) < s.unit then c else c + 1)
  else if downHits then some c
  else if upHits then some (c + 1)
  else none

/-- Try grids from coarse to fine, `count` of them, the first with step `10 ^ e`. -/
def firstHit (x : Dyadic) : Nat → Int → Decimal
  | 0, e => .ofScaled ((x.onGrid e).value / (x.onGrid e).unit) e
  | count + 1, e =>
      match nearest (x.significand % 2 == 0) (x.onGrid e) with
      | some c => .ofScaled c e
      | none => firstHit x count (e - 1)

/-- The fewest digits that single the number out; seventeen always do in double precision. -/
def shortest (x : Dyadic) : Decimal := x.firstHit 17 (x.decimalMagnitude - 1)

/-! ## A fixed number of digits -/

/-- A quotient rounded to the nearest integer, half to even. -/
def roundQuotient (num den : Nat) : Nat :=
  let c := num / den
  let twice := 2 * (num % den)
  if twice < den || (twice == den && c % 2 == 0) then c else c + 1

/-- The number rounded to `count` significant digits. -/
def rounded (x : Dyadic) (count : Nat) : Decimal :=
  let e := x.decimalMagnitude - count
  let s := x.onGrid e
  let c := roundQuotient s.value s.unit
  ⟨(Decimal.digitsOf c).take count, e + Decimal.digitCount c⟩

end Dyadic

end Downhill
