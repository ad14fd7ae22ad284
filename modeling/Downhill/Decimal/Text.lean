import Downhill.Decimal.Digits

/-! # Decimal texts of doubles

The spellings in which numbers appear in messages, documents and summaries.
-/

namespace Downhill.Decimal

/-! ## Layouts of digits -/

/-- Positional notation, never with an exponent. -/
def plain (d : Decimal) : List Char :=
  if d.point ≤ 0 then
    '0' :: '.' :: List.replicate (-d.point).toNat '0' ++ d.digits
  else
    let whole := d.point.toNat
    if d.digits.length ≤ whole then
      d.digits ++ List.replicate (whole - d.digits.length) '0'
    else d.digits.take whole ++ '.' :: d.digits.drop whole

/-- One digit before the point, and the power of ten after an `e`. -/
def scientific (d : Decimal) : List Char :=
  let fraction := match d.digits.drop 1 with
    | [] => []
    | rest => '.' :: rest
  d.digits.take 1 ++ fraction ++ 'e' :: (toString (d.point - 1)).toList

/-! ## Doubles -/

/-- The absolute value of a finite double that is not zero. -/
def dyadicOfBits (bits : UInt64) : Dyadic :=
  let fraction := (bits &&& 0xFFFFFFFFFFFFF).toNat
  let biased := ((bits >>> 52) &&& 0x7FF).toNat
  if biased = 0 then ⟨fraction, -1074, false⟩
  else ⟨0x10000000000000 + fraction, (biased : Int) - 1075, fraction == 0 && biased != 1⟩

def isNegative (x : Float) : Bool := 0x8000000000000000 ≤ x.toBits

/-- Spell a double: its sign, then the absolute value as given for zero or by its digits. -/
def spell (x : Float) (zeroText : List Char) (digits : Dyadic → List Char) : String :=
  if x.isNaN then "NaN"
  else
    let size := if x.isInf then "inf".toList
      else if x == 0.0 then zeroText
      else digits (dyadicOfBits x.toBits)
    String.ofList (if isNegative x then '-' :: size else size)

/-- The shortest digits in positional notation. -/
def plainText (x : Float) : String := spell x zero.plain fun d => d.shortest.plain

/-- The shortest digits in scientific notation. -/
def scientificText (x : Float) : String := spell x zero.scientific fun d => d.shortest.scientific

/-- Scientific notation with six places after the point. -/
def sixPlacesText (x : Float) : String :=
  spell x "0.000000e0".toList fun d => (d.rounded 7).scientific

/-- A text moved to the right edge of a field. -/
def alignRight (width : Nat) (text : String) : String :=
  String.ofList (List.replicate (width - text.length) ' ' ++ text.toList)

end Downhill.Decimal
