/-! # Reading decimals

A decimal is read as the double nearest to it.
-/

namespace Downhill.Decimal

/-- The double nearest to `significand * 10 ^ exponent`. Numbers far outside the range of doubles
are settled by their magnitude alone. -/
def nearestDouble (significand : Nat) (exponent : Int) : Float :=
  let magnitude := exponent + (Nat.log2 significand : Int) * 30103 / 100000
  if significand = 0 || magnitude < -400 then 0.0
  else if 400 < magnitude then 1.0 / 0.0
  else Float.ofScientific significand (exponent < 0) exponent.natAbs

end Downhill.Decimal
