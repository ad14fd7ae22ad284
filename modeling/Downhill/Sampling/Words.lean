/-! # Sources of random words

Streams of 64-bit words that start points are drawn from.
-/

namespace Downhill

inductive WordSource where
  /-- The words `first :: more`, read over and over; `rest` is what is left of the current round. -/
  | cycle (first : UInt64) (more rest : List UInt64)
  /-- A counter whose states are mixed into words. -/
  | splitMix (state : UInt64)
  deriving DecidableEq, Repr

namespace WordSource

/-- Read `words` over and over; if there are none, mix words from `seed`. -/
def start (words : List UInt64) (seed : UInt64) : WordSource :=
  match words with
  | [] => .splitMix seed
  | first :: more => .cycle first more (first :: more)

/-- Mix the bits of a state. -/
def mix (z : UInt64) : UInt64 :=
  let z := (z ^^^ (z >>> 30)) * 0xBF58476D1CE4E5B9
  let z := (z ^^^ (z >>> 27)) * 0x94D049BB133111EB
  z ^^^ (z >>> 31)

/-- The next word, and the source after it. -/
def next : WordSource → UInt64 × WordSource
  | cycle first more (word :: rest) => (word, cycle first more rest)
  | cycle first more [] => (first, cycle first more more)
  | splitMix state =>
      let state := state + 0x9E3779B97F4A7C15
      (mix state, splitMix state)

end WordSource

end Downhill
