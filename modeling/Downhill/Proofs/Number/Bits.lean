import Mathlib
import Downhill.Decimal.Text
import Downhill.Proofs.Number.Shortest

/-! # Bits of a double

The sign and the dyadic number that are read off the bits of a finite double are its sign, its
mantissa and its exponent.
-/

namespace Downhill.Decimal

open Float.Model Float.Model.UnpackedFloat FloatGrid

theorem toNat_mantissa (b : UInt64) :
    (@unpackMantissa .binary64 b.toBitVec).toNat = b.toNat % 2 ^ 52 := by
  rw [unpackMantissa, BitVec.toNat_cast, BitVec.extractLsb_toNat]
  rfl

theorem toNat_exponent (b : UInt64) :
    (@unpackExponent .binary64 b.toBitVec).toNat = b.toNat / 2 ^ 52 % 2 ^ 11 := by
  rw [unpackExponent, BitVec.toNat_cast, BitVec.extractLsb_toNat, Nat.shiftRight_eq_div_pow]
  rfl

theorem toNat_unpackMantissa (b : UInt64) :
    (@unpackMantissa .binary64 b.toBitVec).toNat = (b &&& 0xFFFFFFFFFFFFF).toNat := by
  have hmask : (0xFFFFFFFFFFFFF : UInt64).toNat = 2 ^ 52 - 1 := rfl
  rw [UInt64.toNat_and, hmask, Nat.and_two_pow_sub_one_eq_mod, toNat_mantissa]

theorem toNat_unpackExponent (b : UInt64) :
    (@unpackExponent .binary64 b.toBitVec).toNat = ((b >>> 52) &&& 0x7FF).toNat := by
  have hmask : (0x7FF : UInt64).toNat = 2 ^ 11 - 1 := rfl
  rw [UInt64.toNat_and, hmask, Nat.and_two_pow_sub_one_eq_mod, toNat_exponent,
    UInt64.toNat_shiftRight]
  exact congrArg (· % 2 ^ 11) (Nat.shiftRight_eq_div_pow _ _).symm

theorem toNat_unpackSign (b : UInt64) :
    (@unpackSign .binary64 b.toBitVec).toNat = b.toNat / 2 ^ 63 := by
  rw [unpackSign, BitVec.toNat_cast, BitVec.extractLsb_toNat, Nat.shiftRight_eq_div_pow]
  have hbits : b.toNat < 2 ^ 64 := b.toNat_lt
  change b.toNat / 2 ^ 63 % 2 ^ (63 - 63 + 1) = _
  omega

theorem isNegative_iff (x : Float) : isNegative x = true ↔ 2 ^ 63 ≤ x.toModel.toBits.toNat := by
  rw [isNegative, decide_eq_true_eq, UInt64.le_iff_toNat_le]
  rfl

theorem sign_eq (x : Float) : Sign.ofBitVec (@unpackSign .binary64 x.toModel.toBits.toBitVec) =
    if isNegative x then .negative else .positive := by
  have hbits : x.toModel.toBits.toNat < 2 ^ 64 := x.toModel.toBits.toNat_lt
  have hpositive : @unpackSign .binary64 x.toModel.toBits.toBitVec = 0#1 ↔
      ¬ isNegative x = true := by
    rw [← BitVec.toNat_inj, toNat_unpackSign, isNegative_iff]
    simp only [BitVec.toNat_ofNat]
    omega
  unfold Sign.ofBitVec
  by_cases hsign : isNegative x = true
  · rw [if_neg (hpositive.not.mpr (not_not.mpr hsign)), if_pos hsign]
  · rw [if_pos (hpositive.mpr hsign), if_neg hsign]

theorem isNaN_eq_unpack (x : Float) : x.isNaN = x.toModel.unpack.isNaN := rfl

theorem isInf_eq_unpack (x : Float) : x.isInf = x.toModel.unpack.isInf := rfl

/-- What is read off the bits of a finite double is what it is unpacked to. -/
theorem dyadicOfBits_eq {x : Float} {s : Sign} {m : ℕ} {e : ℤ} {hm : 0 < m}
    (h : x.toModel.unpack = .finite s m e hm) :
    s = (if isNegative x then .negative else .positive) ∧
      dyadicOfBits x.toBits = ⟨m, e, decide (m = 2 ^ 52 ∧ e ≠ -1074)⟩ := by
  have hmantissa := (@unpackMantissa .binary64 x.toModel.toBits.toBitVec).isLt
  change _ < 2 ^ 52 at hmantissa
  have hdyadic : dyadicOfBits x.toBits =
      if (@unpackExponent .binary64 x.toModel.toBits.toBitVec).toNat = 0 then
        ⟨(@unpackMantissa .binary64 x.toModel.toBits.toBitVec).toNat, -1074, false⟩
      else ⟨2 ^ 52 + (@unpackMantissa .binary64 x.toModel.toBits.toBitVec).toNat,
        (@unpackExponent .binary64 x.toModel.toBits.toBitVec).toNat - 1075,
        (@unpackMantissa .binary64 x.toModel.toBits.toBitVec).toNat == 0 &&
          (@unpackExponent .binary64 x.toModel.toBits.toBitVec).toNat != 1⟩ := by
    rw [toNat_unpackMantissa, toNat_unpackExponent]
    rfl
  obtain ⟨hsign, hparts⟩ := bits_of_unpack h
  refine ⟨hsign.trans (sign_eq x), ?_⟩
  rw [hdyadic]
  rcases hparts with ⟨hzero, hm', he⟩ | ⟨hpos, -, hm', he⟩
  · have hnarrow : ¬ (m = 2 ^ 52 ∧ e ≠ -1074) := fun hboth => hboth.2 he
    rw [if_pos hzero, ← hm', decide_eq_false hnarrow, he]
  · rw [if_neg hpos.ne', ← hm', ← he]
    congr 1
    rw [Bool.eq_iff_iff]
    simp only [Bool.and_eq_true, beq_iff_eq, bne_iff_ne, decide_eq_true_eq]
    omega

end Downhill.Decimal
