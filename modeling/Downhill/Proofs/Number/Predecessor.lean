import Mathlib
import Downhill.Sampling
import Downhill.Proofs.Number.Bits
import Downhill.Proofs.Number.Signed

/-! # Predecessors of doubles

The bits of the finite doubles that are not negative count from zero on, up to those of infinity. So
whoever goes from a positive double to its predecessor, and on, arrives at zero.
-/

namespace Downhill.FloatGrid

open Float.Model Float.Model.UnpackedFloat

variable {x : Float} {p : ℚ}

theorem sign_eq_positive_iff (x : Float) :
    Sign.ofBitVec (@unpackSign .binary64 x.toModel.toBits.toBitVec) = .positive ↔
      x.toModel.toBits.toNat < 2 ^ 63 := by
  rw [← not_le, ← Decimal.isNegative_iff, Decimal.sign_eq]
  split <;> simp_all

/-- The bits of a positive finite double. -/
theorem toBits_bounds (h : Denotes x p) (hpos : 0 < p) :
    0 < x.toBits.toNat ∧ x.toBits.toNat < 2047 * 2 ^ 52 := by
  have hbits : x.toBits = x.toModel.toBits := rfl
  rw [hbits]
  cases h with
  | zero => exact absurd hpos (lt_irrefl 0)
  | @finite s m e hm hunpack =>
      obtain ⟨hsign, hparts⟩ := bits_of_unpack hunpack
      have hpositive : s = .positive := by
        cases s with
        | positive => rfl
        | negative =>
            simp only [factor] at hpos
            linarith [size_nonneg m e]
      have hlow := (sign_eq_positive_iff _).mp (hsign.symm.trans hpositive)
      rw [Decimal.toNat_mantissa, Decimal.toNat_exponent] at hparts
      omega

theorem unpackExponent_ne {b : UInt64} (h : b.toNat < 2047 * 2 ^ 52) :
    @unpackExponent .binary64 b.toBitVec ≠ -1#11 := by
  intro heq
  have hfull := congrArg BitVec.toNat heq
  rw [Decimal.toNat_exponent] at hfull
  change b.toNat / 2 ^ 52 % 2 ^ 11 = 2047 at hfull
  omega

/-- Bits below those of infinity are a finite double that is not negative. -/
theorem exists_denotes_of_toBits (h : x.toBits.toNat < 2047 * 2 ^ 52) :
    ∃ p, Denotes x p ∧ 0 ≤ p := by
  have hbits : x.toBits = x.toModel.toBits := rfl
  rw [hbits] at h
  have hsign := (sign_eq_positive_iff _).mpr (lt_trans h (by norm_num))
  have hunpack : x.toModel.unpack = UnpackedFloat.unpack .binary64 x.toModel.toBits.toBitVec := rfl
  unfold UnpackedFloat.unpack at hunpack
  dsimp only at hunpack
  rw [if_neg (unpackExponent_ne h), hsign] at hunpack
  split at hunpack
  · split at hunpack
    · exact ⟨0, .zero hunpack, le_rfl⟩
    · exact ⟨_, .finite hunpack, by simpa [factor] using size_nonneg _ _⟩
  · exact ⟨_, .finite hunpack, by simpa [factor] using size_nonneg _ _⟩

theorem ofBits_toBits (x : Float) : Float.ofBits x.toBits = x := by
  have hunpack : (Float.ofBits x.toBits).toModel.unpack =
      (Float.Model.pack x.toModel.unpack).unpack := rfl
  refine eq_of_unpack (hunpack.trans ?_)
  cases hx : x.toModel.unpack with
  | notANumber => rfl
  | infinity s => exact unpack_pack_infinity s
  | zero s => exact unpack_pack_zero s
  | finite s m e hm => exact unpack_pack_of_unpack hx s

/-- A positive double has a predecessor, which is not negative and has one predecessor less. -/
theorem exists_denotes_predecessor (h : Denotes x p) (hpos : 0 < p) :
    ∃ q, Denotes (Drawable.predecessor x) q ∧ 0 ≤ q ∧
      Drawable.rank (Drawable.predecessor x) + 1 = Drawable.rank x := by
  obtain ⟨hlow, hhigh⟩ := toBits_bounds h hpos
  have hone : (1 : UInt64) ≤ x.toBits := UInt64.le_iff_toNat_le.mpr hlow
  have hbits : (x.toBits - 1).toNat = x.toBits.toNat - 1 := UInt64.toNat_sub_of_le _ _ hone
  have hbelow : (x.toBits - 1).toNat < 2047 * 2 ^ 52 := by omega
  have hvalid : Format.binary64.Valid (x.toBits - 1).toBitVec :=
    ⟨fun heq => absurd heq (unpackExponent_ne hbelow)⟩
  have hpredecessor : Drawable.predecessor x = .ofModel ⟨x.toBits - 1, hvalid⟩ :=
    ofBits_toBits (.ofModel ⟨x.toBits - 1, hvalid⟩)
  rw [hpredecessor]
  obtain ⟨q, hq, hnonneg⟩ : ∃ q, Denotes (.ofModel ⟨x.toBits - 1, hvalid⟩) q ∧ 0 ≤ q :=
    exists_denotes_of_toBits hbelow
  refine ⟨q, hq, hnonneg, ?_⟩
  change (x.toBits - 1).toNat + 1 = x.toBits.toNat
  omega

end Downhill.FloatGrid
