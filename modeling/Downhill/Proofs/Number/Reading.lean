import Mathlib
import Downhill.Decimal.Reading
import Downhill.Proofs.Number.Product
import Downhill.Proofs.Number.Rounding

/-! # Reading decimals as doubles

A decimal in the interval around a double is read as that double, whether the quotient is taken of
two doubles or of their exact parts.
-/

namespace Downhill.FloatGrid

open Float.Model Float.Model.UnpackedFloat

/-! ## Quotients and products -/

section Parts

variable {m n a : ℕ} {e f c : ℤ}

theorem divCore_eq (m n : ℕ) (e f : ℤ) : ∃ k : ℕ, ∃ g : ℤ, g + k = e - f ∧
    (g ≤ -1074 ∨ 53 + n.log2 ≤ m.log2 + k) ∧
    divCore .binary64 m e n f =
      (m * 2 ^ k / n, g, accuracyOfFraction (m * 2 ^ k % n) n) := by
  have htarget : Format.binary64.targetExponent (totalExponent m e - totalExponent n f) =
      max (m.log2 + e - (n.log2 + f) - 53) (-1074) := by
    simp only [Format.targetExponent, totalExponent, Format.mantissaBits, Format.minExponent]
    norm_num
    omega
  obtain ⟨g, hg⟩ : ∃ g, g = min (e - f) (max (m.log2 + e - (n.log2 + f) - 53) (-1074)) := ⟨_, rfl⟩
  refine ⟨(e - f - g).toNat, g, by omega, by omega, ?_⟩
  unfold divCore
  simp only [htarget, ← hg, Nat.shiftLeft_eq]

theorem leads_quotient (hm : 0 < m) (hn : 0 < n) :
    Leads (divCore .binary64 m e n f).1 (divCore .binary64 m e n f).2.1
      (divCore .binary64 m e n f).2.2 (size m e / size n f) := by
  obtain ⟨k, g, hexp, hlong, hcore⟩ := divCore_eq m n e f
  rw [hcore]
  constructor
  · have hquotient : size m e / size n f / 2 ^ g = ((m * 2 ^ k : ℕ) : ℚ) / n := by
      have hunit : (2 : ℚ) ^ e = 2 ^ g * 2 ^ k * 2 ^ f := by
        rw [← zpow_natCast, ← zpow_add₀ (by norm_num), ← zpow_add₀ (by norm_num)]
        congr 1
        omega
      have hpos : (0 : ℚ) < 2 ^ g := zpow_pos (by norm_num) g
      have hpos' : (0 : ℚ) < 2 ^ f := zpow_pos (by norm_num) f
      have hn' : (0 : ℚ) < n := by exact_mod_cast hn
      rw [size, size, hunit]
      push_cast
      field_simp
    rw [hquotient]
    exact measures_quotient _ hn
  · refine hlong.symm.imp (fun hbits => ?_) id
    rw [Nat.le_div_iff_mul_le hn]
    calc 2 ^ 52 * n ≤ 2 ^ 52 * 2 ^ (n.log2 + 1) :=
          Nat.mul_le_mul_left _ Nat.lt_log2_self.le
      _ = 2 ^ (53 + n.log2) := by ring
      _ ≤ 2 ^ (m.log2 + k) := Nat.pow_le_pow_right (by norm_num) hbits
      _ = 2 ^ m.log2 * 2 ^ k := pow_add _ _ _
      _ ≤ m * 2 ^ k := Nat.mul_le_mul_right _ (Nat.log2_self_le hm.ne')

theorem div_eq_of_roundsTo (hgrid : OnGrid a c) (ha : 0 < a) (hm : 0 < m) (hn : 0 < n)
    (hq : RoundsTo (size m e / size n f) a c) (s t : Sign) :
    UnpackedFloat.div .binary64 (.finite s m e hm) (.finite t n f hn) = .finite (s / t) a c ha :=
  hq.roundWithAccuracy_eq hgrid ha (leads_quotient hm hn) _

theorem mul_eq_of_roundsTo (hgrid : OnGrid a c) (ha : 0 < a) (hm : 0 < m) (hn : 0 < n)
    (hq : RoundsTo (size m e * size n f) a c) (hfine : Fine (m * n) (e + f)) (s t : Sign) :
    UnpackedFloat.mul .binary64 (.finite s m e hm) (.finite t n f hn) =
      .finite (s * t) a c ha := by
  have hleads := leads_exact hfine
  rw [size_mul] at hleads
  exact hq.roundWithAccuracy_eq hgrid ha hleads _

end Parts

/-! ## Doubles without rounding -/

theorem unpack_div (x y : Float) : (x / y).toModel.unpack =
    (Float.Model.pack (UnpackedFloat.div .binary64 x.toModel.unpack y.toModel.unpack)).unpack := rfl

theorem holds_of_pack {u : UnpackedFloat} {x : Float} {a : ℕ} {c : ℤ} (ha : 0 < a)
    (hx : x.toModel.unpack = (Float.Model.pack u).unpack) (hu : u = .finite .positive a c ha)
    (hgrid : OnGrid a c) (hc : c ≤ 971) : Holds x a c :=
  ⟨ha, by rw [hx, hu, unpack_pack_of_onGrid hgrid, if_pos hc]⟩

/-- A short natural number is on the grid. -/
theorem onGrid_natural {n : ℕ} (hn : 0 < n) (hsmall : n < 2 ^ 53) :
    OnGrid (n * 2 ^ (52 - n.log2)) (n.log2 - 52) ∧
      size (n * 2 ^ (52 - n.log2)) (n.log2 - 52) = n := by
  have hlog : n.log2 < 53 := (Nat.log2_lt hn.ne').mpr hsmall
  have hlow : 2 ^ n.log2 ≤ n := Nat.log2_self_le hn.ne'
  have hhigh : n < 2 ^ (n.log2 + 1) := Nat.lt_log2_self
  have hpow : 2 ^ n.log2 * 2 ^ (52 - n.log2) = 2 ^ 52 := by
    rw [← pow_add]
    congr 1
    omega
  refine ⟨⟨?_, by omega, .inl ?_⟩, ?_⟩
  · calc n * 2 ^ (52 - n.log2) < 2 ^ (n.log2 + 1) * 2 ^ (52 - n.log2) :=
          Nat.mul_lt_mul_of_pos_right hhigh (Nat.two_pow_pos _)
      _ = 2 * (2 ^ n.log2 * 2 ^ (52 - n.log2)) := by ring
      _ = 2 ^ 53 := by rw [hpow]; norm_num
  · rw [← hpow]
    exact Nat.mul_le_mul_right _ hlow
  · have hunit : (2 : ℚ) ^ (52 - n.log2) * 2 ^ ((n.log2 : ℤ) - 52) = 1 := by
      rw [← zpow_natCast, ← zpow_add₀ (by norm_num),
        zpow_eq_one_iff_right₀ (by norm_num) (by norm_num)]
      omega
    rw [size]
    push_cast
    rw [mul_assoc, hunit, mul_one]

theorem ofNat_eq {n : ℕ} (hn : 0 < n) (hsmall : n < 2 ^ 53) :
    UnpackedFloat.ofNat .binary64 n =
      .finite .positive (n * 2 ^ (52 - n.log2)) (n.log2 - 52) (by positivity) := by
  have hlog : n.log2 < 53 := (Nat.log2_lt hn.ne').mpr hsmall
  obtain ⟨hgrid, hsize⟩ := onGrid_natural hn hsmall
  have hcompare : compare (n : ℤ) 0 = .gt := Int.compare_eq_gt.mpr (by omega)
  have htarget : Format.binary64.targetExponent (totalExponent n 0) = n.log2 - 52 := by
    rw [targetExponent_eq]
    omega
  have hshift : (0 - (n.log2 - 52 : ℤ)).toNat = 52 - n.log2 := by omega
  have hexp : (0 : ℤ) - (52 - n.log2 : ℕ) = n.log2 - 52 := by omega
  unfold UnpackedFloat.ofNat UnpackedFloat.ofInt UnpackedFloat.normalize UnpackedFloat.round
  simp only [hcompare, Int.toNat_natCast, htarget, decreaseExponent, hshift, hexp, Nat.shiftLeft_eq]
  exact (roundsTo_self _).roundWithAccuracy_eq hgrid _
    (leads_exact (hgrid.normal.imp_right Eq.le)) _

theorem holds_toFloat {n : ℕ} (hn : 0 < n) (hsmall : n < 2 ^ 53) :
    Holds n.toUInt64.toFloat (n * 2 ^ (52 - n.log2)) (n.log2 - 52) := by
  have hlog : n.log2 < 53 := (Nat.log2_lt hn.ne').mpr hsmall
  have hword : n.toUInt64.toNat = n := UInt64.toNat_ofNat_of_lt' (hsmall.trans (by decide))
  have hunpack : n.toUInt64.toFloat.toModel.unpack =
      (Float.Model.pack (UnpackedFloat.ofNat .binary64 n.toUInt64.toNat)).unpack := rfl
  rw [hword] at hunpack
  exact holds_of_pack _ hunpack (ofNat_eq hn hsmall) (onGrid_natural hn hsmall).1 (by omega)

instance (x : Float) (m : ℕ) (e : ℤ) : Decidable (Holds x m e) :=
  decidable_of_bool
    (match x.toModel.unpack with
      | .finite .positive n f _ => n == m && f == e
      | _ => false) <| by
    unfold Holds
    split
    · rename_i n f hn hunpack
      simp only [hunpack, finite.injEq, Bool.and_eq_true, beq_iff_eq, true_and]
      constructor
      · rintro ⟨rfl, rfl⟩
        exact ⟨hn, rfl, rfl⟩
      · rintro ⟨-, h⟩
        exact h
    · rename_i hother
      simp only [Bool.false_eq_true, false_iff]
      rintro ⟨hm, hunpack⟩
      exact hother m e hm hunpack

/-- The powers of ten that are doubles. -/
theorem holds_powerOfTen : ∀ i : Fin Float.exactlyRepresentablePowersOfTen.size,
    Holds Float.exactlyRepresentablePowersOfTen[i] (5 ^ i.val * 2 ^ (52 - (5 ^ i.val).log2))
      ((5 ^ i.val).log2 - 52 + i) := by
  decide +kernel

theorem size_powerOfTen (k : Fin Float.exactlyRepresentablePowersOfTen.size) :
    size (5 ^ k.val * 2 ^ (52 - (5 ^ k.val).log2)) ((5 ^ k.val).log2 - 52 + k) = 10 ^ k.val := by
  have hbound : k.val ≤ 22 := Nat.le_of_lt_succ k.isLt
  have hsmall : 5 ^ k.val < 2 ^ 53 :=
    (Nat.pow_le_pow_right (by norm_num) hbound).trans_lt (by norm_num)
  have hsize := (onGrid_natural (by positivity) hsmall).2
  rw [size] at hsize ⊢
  rw [zpow_add₀ (by norm_num), ← mul_assoc, hsize, zpow_natCast]
  push_cast
  rw [← mul_pow]
  norm_num

/-! ## Decimals -/

section Decimals

variable {n k a : ℕ} {c : ℤ}

/-- A short number over a power of ten is divided as doubles are. -/
theorem holds_div_powerOfTen (hgrid : OnGrid a c) (hc : c ≤ 971) (ha : 0 < a) (hn : 0 < n)
    (hsmall : n < 2 ^ 53) (i : Fin Float.exactlyRepresentablePowersOfTen.size)
    (hq : RoundsTo (n / 10 ^ i.val) a c) :
    Holds (n.toUInt64.toFloat / Float.exactlyRepresentablePowersOfTen[i]) a c := by
  obtain ⟨hm, hx⟩ := holds_toFloat hn hsmall
  obtain ⟨hp, hy⟩ := holds_powerOfTen i
  rw [← size_powerOfTen i, ← (onGrid_natural hn hsmall).2] at hq
  refine holds_of_pack ha (unpack_div _ _) ?_ hgrid hc
  rw [hx, hy]
  exact div_eq_of_roundsTo hgrid ha hm hp hq _ _

theorem holds_mul_one (hgrid : OnGrid a c) (hc : c ≤ 971) (ha : 0 < a) (hn : 0 < n)
    (hsmall : n < 2 ^ 53) (hq : RoundsTo n a c) : Holds (n.toUInt64.toFloat * 1.0) a c := by
  obtain ⟨hgrid', hsize⟩ := onGrid_natural hn hsmall
  obtain ⟨hm, hx⟩ := holds_toFloat hn hsmall
  obtain ⟨hp, hy⟩ := holds_one
  have hone : size (2 ^ 52) (-52) = 1 := by norm_num [size]
  have hproduct : size (n * 2 ^ (52 - n.log2)) (n.log2 - 52) * size (2 ^ 52) (-52) = n := by
    rw [hsize, hone, mul_one]
  refine holds_of_pack ha (unpack_mul _ _) ?_ hgrid hc
  rw [hx, hy]
  refine mul_eq_of_roundsTo hgrid ha hm hp (hproduct ▸ hq) (.inl ?_) _ _
  exact Nat.le_mul_of_pos_left _ hm

theorem ofScientific_eq (hgrid : OnGrid a c) (ha : 0 < a) (hn : 0 < n) (hk : k ≤ 400)
    (hq : RoundsTo (n / 10 ^ k) a c) :
    UnpackedFloat.ofScientific .binary64 n (-k) = .finite .positive a c ha := by
  have htiny : ¬ (-k : ℤ) < -((2 ^ Format.binary64.exponentBits : ℤ) + n.log2) := by
    norm_num
    omega
  have hhuge : ¬ (-k : ℤ) > 2 ^ Format.binary64.exponentBits := by norm_num
  unfold UnpackedFloat.ofScientific
  rw [dif_neg hn.ne', if_neg hhuge, if_neg htiny]
  split
  · rename_i hzero
    obtain rfl : k = 0 := by omega
    have hsize : size (n <<< Format.binary64.mantissaBits) (-Format.binary64.mantissaBits) *
        size (10 ^ (-((0 : ℕ) : ℤ)).toNat) 0 = n := by
      norm_num [size, Nat.shiftLeft_eq, Format.mantissaBits]
      ring
    refine mul_eq_of_roundsTo hgrid ha _ _ ?_ ?_ _ _
    · rw [hsize]
      simpa using hq
    · left
      norm_num [Nat.shiftLeft_eq, Format.mantissaBits]
      omega
  · have hsize : size n 0 / size (10 ^ (-(-k : ℤ)).toNat) 0 = n / 10 ^ k := by
      simp [size]
    exact div_eq_of_roundsTo hgrid ha _ _ (hsize ▸ hq) _ _

theorem holds_ofScientific (hgrid : OnGrid a c) (hc : c ≤ 971) (ha : 0 < a) (hn : 0 < n)
    (hk : k ≤ 400) (hq : RoundsTo (n / 10 ^ k) a c) :
    Holds (Float.ofScientific n (decide (0 < k)) k) a c := by
  unfold Float.ofScientific
  split
  · rename_i hshort
    by_cases hzero : k = 0
    · subst hzero
      exact holds_mul_one hgrid hc ha hn hshort.1 (by simpa using hq)
    · rw [if_pos (by simpa using Nat.pos_of_ne_zero hzero)]
      exact holds_div_powerOfTen hgrid hc ha hn hshort.1 ⟨k, Nat.lt_succ_of_le hshort.2⟩ hq
  · have hexp : (if decide (0 < k) = true then Int.negOfNat k else Int.ofNat k) = -k := by
      split
      · exact Int.negOfNat_eq
      · rename_i hzero
        simp at hzero
        simp [hzero]
    rw [hexp]
    exact holds_of_pack ha rfl (ofScientific_eq hgrid ha hn hk hq) hgrid hc

theorem holds_nearestDouble (hgrid : OnGrid a c) (hc : c ≤ 971) (ha : 0 < a) (hn : 0 < n)
    (hk : k ≤ 400) (hlog : n.log2 ≤ 1329) (hq : RoundsTo (n / 10 ^ k) a c) :
    Holds (Decimal.nearestDouble n (-k)) a c := by
  have hnonneg : (-k : ℤ) < 0 ↔ 0 < k := by omega
  unfold Decimal.nearestDouble
  rw [if_neg, if_neg]
  · simpa [hnonneg] using holds_ofScientific hgrid hc ha hn hk hq
  · omega
  · simp only [Bool.or_eq_true, decide_eq_true_eq]
    omega

end Decimals

end Downhill.FloatGrid
