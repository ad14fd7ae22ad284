import Mathlib

/-! # The grid of doubles

A positive double is a mantissa times a power of two. If there were no largest exponent, these
numbers would be a grid on the line, and rounding takes a number to the nearest point of the grid:
what is cut off from a mantissa decides between its neighbours, and no point of another exponent is
nearer than they are.
-/

namespace Downhill.FloatGrid

open Float.Model Float.Model.UnpackedFloat

/-! ## Cutting bits off -/

/-- Half units in the last place, as far as the round bit tells. -/
def halves (em : ExtendedMantissa) : ℕ := 2 * em.mantissa + em.roundBit.toNat

/-- `em` is what is left of `m` when its last `k` bits are cut off. -/
def Cut (em : ExtendedMantissa) (m k : ℕ) : Prop :=
  if em.stickyBit then halves em * 2 ^ k < 2 * m ∧ 2 * m < (halves em + 1) * 2 ^ k
  else 2 * m = halves em * 2 ^ k

theorem cut_zero (m : ℕ) : Cut (.ofMantissaAndAccuracy m .exact) m 0 := by
  simp [Cut, halves, ExtendedMantissa.ofMantissaAndAccuracy]

theorem halves_shiftRightOne (em : ExtendedMantissa) : halves em.shiftRightOne = em.mantissa := by
  have hbit : (em.mantissa % 2 != 0).toNat = em.mantissa % 2 := by
    rcases Nat.mod_two_eq_zero_or_one em.mantissa with hmod | hmod <;> simp [hmod]
  simp only [halves, ExtendedMantissa.shiftRightOne, hbit]
  omega

theorem Cut.shiftRightOne {em : ExtendedMantissa} {m k : ℕ} (h : Cut em m k) :
    Cut em.shiftRightOne m (k + 1) := by
  have hhalves := halves_shiftRightOne em
  have hpow : em.mantissa * 2 ^ (k + 1) = 2 * em.mantissa * 2 ^ k := by ring
  have hnext : (em.mantissa + 1) * 2 ^ (k + 1) = 2 * em.mantissa * 2 ^ k + 2 * 2 ^ k := by ring
  have hpos : 0 < 2 ^ k := Nat.two_pow_pos k
  rcases em with ⟨n, round, sticky⟩
  simp only [Cut, hhalves, hpow, hnext]
  cases round <;> cases sticky <;>
    simp only [Cut, halves, ExtendedMantissa.shiftRightOne, Bool.toNat_true, Bool.toNat_false,
      Bool.or_true, Bool.or_false, Bool.false_eq_true, if_true, if_false, add_mul] at h ⊢ <;>
    omega

theorem cut_shiftRight (m k : ℕ) :
    Cut (ExtendedMantissa.ofMantissaAndAccuracy m .exact >>> k) m k := by
  induction k with
  | zero => exact cut_zero m
  | succ k ih => exact ih.shiftRightOne

/-! ## Rounding -/

theorem Cut.lt_rounded {em : ExtendedMantissa} {m k a : ℕ} (h : Cut em m k)
    (ha : (2 * a + 1) * 2 ^ k < 2 * m) : a < em.roundedMantissa := by
  have hpos : 0 < 2 ^ k := Nat.two_pow_pos k
  have hhalves : 2 * a + 1 < halves em + em.stickyBit.toNat := by
    unfold Cut at h
    split at h
    · rename_i hsticky
      have := lt_of_mul_lt_mul_right (ha.trans h.2) hpos.le
      simpa [hsticky] using this
    · rename_i hsticky
      have := lt_of_mul_lt_mul_right (ha.trans_eq h) hpos.le
      simpa [hsticky] using this
  rcases em with ⟨n, round, sticky⟩
  cases round <;> cases sticky <;>
    simp [halves, ExtendedMantissa.roundedMantissa, ExtendedMantissa.accuracy,
      Accuracy.roundToNearestEven] at hhalves ⊢ <;>
    omega

theorem Cut.rounded_le {em : ExtendedMantissa} {m k a : ℕ} (h : Cut em m k)
    (ha : 2 * m < (2 * a + 1) * 2 ^ k) : em.roundedMantissa ≤ a := by
  have hpos : 0 < 2 ^ k := Nat.two_pow_pos k
  have hhalves : halves em < 2 * a + 1 := by
    unfold Cut at h
    split at h
    · exact lt_of_mul_lt_mul_right (h.1.trans ha) hpos.le
    · exact lt_of_mul_lt_mul_right (h.symm.trans_lt ha) hpos.le
  rcases em with ⟨n, round, sticky⟩
  cases round <;> cases sticky <;>
    simp [halves, ExtendedMantissa.roundedMantissa, ExtendedMantissa.accuracy,
      Accuracy.roundToNearestEven] at hhalves ⊢ <;>
    omega

/-- The rounded mantissa is off by at most half a unit. -/
theorem Cut.near {em : ExtendedMantissa} {m k : ℕ} (h : Cut em m k) :
    2 * m ≤ (2 * em.roundedMantissa + 1) * 2 ^ k ∧
      2 * em.roundedMantissa * 2 ^ k ≤ 2 * m + 2 ^ k := by
  constructor
  · by_contra hfar
    exact lt_irrefl _ (h.lt_rounded (not_le.mp hfar))
  · by_contra hfar
    obtain ⟨a, ha⟩ : ∃ a, em.roundedMantissa = a + 1 := by
      apply Nat.exists_eq_succ_of_ne_zero
      rintro hzero
      simp [hzero] at hfar
    rw [ha] at hfar
    have hsplit : 2 * (a + 1) * 2 ^ k = (2 * a + 1) * 2 ^ k + 2 ^ k := by ring
    have := h.rounded_le (a := a) (by omega)
    omega

/-! ## The grid -/

/-- A mantissa and an exponent as doubles have them, if there were no largest exponent. -/
structure OnGrid (m : ℕ) (e : ℤ) : Prop where
  small : m < 2 ^ 53
  least : -1074 ≤ e
  normal : 2 ^ 52 ≤ m ∨ e = -1074

/-- The number that a mantissa and an exponent stand for. -/
def size (m : ℕ) (e : ℤ) : ℚ := m * 2 ^ e

theorem targetExponent_eq (m : ℕ) (e : ℤ) :
    Format.binary64.targetExponent (totalExponent m e) = max (m.log2 + e - 52) (-1074) := by
  simp only [Format.targetExponent, totalExponent, Format.mantissaBits, Format.minExponent]
  norm_num
  omega

theorem OnGrid.targetExponent {m : ℕ} {e : ℤ} (h : OnGrid m e) :
    Format.binary64.targetExponent (totalExponent m e) = e := by
  have hlog : m.log2 < 53 := by
    by_cases hzero : m = 0
    · simp [hzero]
    · exact (Nat.log2_lt hzero).mpr h.small
  rw [targetExponent_eq]
  rcases h.normal with hnormal | hleast
  · have : 52 ≤ m.log2 := (Nat.le_log2 (by omega)).mpr hnormal
    have := h.least
    omega
  · omega

theorem shiftToTargetExponent_of_onGrid {m : ℕ} {e : ℤ} (h : OnGrid m e) :
    shiftToTargetExponent .binary64 m e .exact = (.ofMantissaAndAccuracy m .exact, e) := by
  unfold shiftToTargetExponent shiftToExponent
  rw [h.targetExponent]
  simp only [sub_self, Int.toNat_zero]
  simp
  rfl

theorem shiftToTargetExponent_carry {e : ℤ} (h : -1074 ≤ e) :
    shiftToTargetExponent .binary64 (2 ^ 53) e .exact =
      (.ofMantissaAndAccuracy (2 ^ 52) .exact, e + 1) := by
  have htarget : Format.binary64.targetExponent (totalExponent (2 ^ 53) e) = e + 1 := by
    rw [targetExponent_eq, Nat.log2_two_pow]
    omega
  unfold shiftToTargetExponent shiftToExponent
  rw [htarget]
  have hone : (e + 1 - e).toNat = 1 := by omega
  simp only [hone]
  rfl

/-- A product may be longer than the grid allows, but it is not coarser. -/
def Fine (m : ℕ) (e : ℤ) : Prop := 2 ^ 52 ≤ m ∨ e ≤ -1074

/-- The exponent of the grid around a number. -/
def gridExponent (m : ℕ) (e : ℤ) : ℤ := max (m.log2 + e - 52) (-1074)

/-- How many bits a mantissa has to lose to get there. -/
def surplus (m : ℕ) (e : ℤ) : ℕ := (gridExponent m e - e).toNat

theorem Fine.exponent_eq {m : ℕ} {e : ℤ} (h : Fine m e) :
    e + surplus m e = gridExponent m e := by
  unfold surplus gridExponent
  rcases h with hlong | hleast
  · have : 52 ≤ m.log2 := (Nat.le_log2 (by omega)).mpr hlong
    omega
  · omega

/-- The mantissa after its surplus bits are cut off, with what is known of them. -/
def shifted (m : ℕ) (e : ℤ) : ExtendedMantissa :=
  ExtendedMantissa.ofMantissaAndAccuracy m .exact >>> surplus m e

theorem Fine.shiftToTargetExponent {m : ℕ} {e : ℤ} (h : Fine m e) :
    shiftToTargetExponent .binary64 m e .exact = (shifted m e, gridExponent m e) := by
  rw [← h.exponent_eq]
  unfold Float.Model.UnpackedFloat.shiftToTargetExponent shiftToExponent
  rw [targetExponent_eq]
  rfl

section Rounded

variable {m : ℕ} {e : ℤ} (hm : 0 < m) (hfine : Fine m e)

theorem shifted_le : (shifted m e).roundedMantissa ≤ 2 ^ 53 := by
  apply (cut_shiftRight m (surplus m e)).rounded_le
  have hbits : m.log2 + 1 ≤ 53 + surplus m e := by
    unfold surplus gridExponent
    omega
  have hlt : m < 2 ^ (m.log2 + 1) := Nat.lt_log2_self
  have hpow : 2 ^ (m.log2 + 1) ≤ 2 ^ 53 * 2 ^ surplus m e := by
    rw [← pow_add]
    exact Nat.pow_le_pow_right (by norm_num) hbits
  have hpos : 0 < 2 ^ surplus m e := Nat.two_pow_pos _
  nlinarith

include hm hfine in
theorem le_shifted : 2 ^ 52 ≤ (shifted m e).roundedMantissa ∨ gridExponent m e = -1074 := by
  by_cases hleast : gridExponent m e = -1074
  · exact .inr hleast
  · refine .inl ?_
    have hbits : m.log2 = 52 + surplus m e := by
      have := hfine.exponent_eq
      unfold gridExponent at hleast this
      omega
    have hpow : 2 ^ 52 * 2 ^ surplus m e ≤ m := by
      rw [← pow_add, ← hbits]
      exact Nat.log2_self_le (by omega)
    have hpos : 0 < 2 ^ surplus m e := Nat.two_pow_pos _
    have : 2 ^ 52 - 1 < (shifted m e).roundedMantissa := by
      apply (cut_shiftRight m (surplus m e)).lt_rounded
      have : (2 * (2 ^ 52 - 1) + 1) * 2 ^ surplus m e < 2 * (2 ^ 52 * 2 ^ surplus m e) := by
        rw [← mul_assoc]
        exact Nat.mul_lt_mul_of_pos_right (by norm_num) hpos
      omega
    omega

/-- Multiples of the grid's unit are not nearer than the rounded mantissa. -/
theorem Fine.nearest_multiple (hfine : Fine m e) (a : ℤ) :
    |(shifted m e).roundedMantissa * (2 : ℚ) ^ gridExponent m e - size m e| ≤
      |a * (2 : ℚ) ^ gridExponent m e - size m e| := by
  obtain ⟨hbelow, habove⟩ := (cut_shiftRight m (surplus m e)).near
  change 2 * m ≤ (2 * (shifted m e).roundedMantissa + 1) * _ at hbelow
  change 2 * (shifted m e).roundedMantissa * _ ≤ _ at habove
  generalize (shifted m e).roundedMantissa = r at hbelow habove ⊢
  have hunit : (0 : ℚ) < 2 ^ e := zpow_pos (by norm_num) e
  have hgrid : (2 : ℚ) ^ gridExponent m e = 2 ^ surplus m e * 2 ^ e := by
    rw [← hfine.exponent_eq, zpow_add₀ (by norm_num), zpow_natCast, mul_comm]
  have hfactor (b : ℚ) : b * (2 : ℚ) ^ gridExponent m e - size m e =
      (b * 2 ^ surplus m e - m) * 2 ^ e := by
    rw [hgrid, size]
    ring
  rw [hfactor, hfactor, abs_mul, abs_mul, abs_of_pos hunit]
  apply mul_le_mul_of_nonneg_right _ hunit.le
  have hbelow' : (2 : ℚ) * m ≤ (2 * r + 1) * 2 ^ surplus m e := by exact_mod_cast hbelow
  have habove' : (2 : ℚ) * r * 2 ^ surplus m e ≤ 2 * m + 2 ^ surplus m e := by
    exact_mod_cast habove
  have hpos : (0 : ℚ) < 2 ^ surplus m e := by positivity
  rcases lt_trichotomy a r with hlt | heq | hgt
  · have hstep : (a : ℚ) + 1 ≤ r := by exact_mod_cast hlt
    have hmul := mul_le_mul_of_nonneg_right hstep hpos.le
    rw [abs_le]
    constructor
    · have := neg_abs_le ((a : ℚ) * 2 ^ surplus m e - m)
      linarith
    · have := neg_abs_le ((a : ℚ) * 2 ^ surplus m e - m)
      linarith
  · have : (a : ℚ) = r := by exact_mod_cast heq
    rw [this]
  · have hstep : (r : ℚ) + 1 ≤ a := by exact_mod_cast hgt
    have hmul := mul_le_mul_of_nonneg_right hstep hpos.le
    have := le_abs_self ((a : ℚ) * 2 ^ surplus m e - m)
    rw [abs_le]
    constructor <;> linarith

include hm in
/-- The grid around a number reaches down to its leading bit. -/
theorem pow_le_size (hleast : gridExponent m e ≠ -1074) :
    (2 : ℚ) ^ 52 * 2 ^ gridExponent m e ≤ size m e := by
  have hbits : gridExponent m e = m.log2 + e - 52 := by
    unfold gridExponent at hleast ⊢
    omega
  have hlog : (2 : ℚ) ^ m.log2 ≤ m := by exact_mod_cast Nat.log2_self_le (by omega)
  have hunit : (0 : ℚ) < 2 ^ e := zpow_pos (by norm_num) e
  have hpow : (2 : ℚ) ^ 52 * 2 ^ gridExponent m e = 2 ^ m.log2 * 2 ^ e := by
    rw [hbits, ← zpow_natCast, ← zpow_natCast, ← zpow_add₀ (by norm_num),
      ← zpow_add₀ (by norm_num)]
    congr 1
    push_cast
    ring
  rw [hpow]
  exact mul_le_mul_of_nonneg_right hlog hunit.le

include hm in
/-- No number on the grid is nearer than the rounded one. -/
theorem Fine.nearest (hfine : Fine m e) {a : ℕ} {c : ℤ} (h : OnGrid a c) :
    |(shifted m e).roundedMantissa * (2 : ℚ) ^ gridExponent m e - size m e| ≤
      |size a c - size m e| := by
  rcases le_or_gt (gridExponent m e) c with hcoarse | hfiner
  · -- A coarser number is a multiple of the unit.
    obtain ⟨k, hk⟩ := Int.le.dest hcoarse
    have hmultiple : size a c = ((a * 2 ^ k : ℕ) : ℤ) * (2 : ℚ) ^ gridExponent m e := by
      rw [size, ← hk, zpow_add₀ (by norm_num), zpow_natCast]
      push_cast
      ring
    rw [hmultiple]
    exact hfine.nearest_multiple _
  · -- A finer one lies below the leading bit, which is a multiple of the unit.
    have hleast : gridExponent m e ≠ -1074 := by
      have := h.least
      omega
    have hlead := pow_le_size hm hleast
    have hbelow : size a c ≤ (2 : ℚ) ^ 52 * 2 ^ gridExponent m e := by
      have hsmall : (a : ℚ) ≤ 2 ^ 53 := by exact_mod_cast h.small.le
      have hunit : (0 : ℚ) < 2 ^ c := zpow_pos (by norm_num) c
      have hstep : (2 : ℚ) ^ (c + 1) ≤ 2 ^ gridExponent m e :=
        zpow_le_zpow_right₀ (by norm_num) hfiner
      rw [zpow_add₀ (by norm_num), zpow_one] at hstep
      unfold size
      nlinarith
    have hnearest := hfine.nearest_multiple (2 ^ 52)
    push_cast at hnearest
    refine hnearest.trans ?_
    rw [abs_sub_comm, abs_sub_comm (size a c), abs_of_nonneg (by linarith),
      abs_of_nonneg (by linarith)]
    linarith

end Rounded

/-- A number is rounded to the nearest one on the grid. -/
theorem exists_nearest (s : Sign) {m : ℕ} {e : ℤ} (hm : 0 < m) (hfine : Fine m e) :
    ∃ n f, OnGrid n f ∧ (∀ a c, OnGrid a c → |size n f - size m e| ≤ |size a c - size m e|) ∧
      roundWithAccuracy .binary64 s m e .exact =
        if h : n = 0 then .zero s else .finite s n f (Nat.pos_of_ne_zero h) := by
  have hleast : -1074 ≤ gridExponent m e := le_max_right _ _
  have hround : roundWithAccuracy .binary64 s m e .exact =
      let last := shiftToTargetExponent .binary64 (shifted m e).roundedMantissa
        (gridExponent m e) .exact
      if h : last.1.mantissa = 0 then .zero s
        else .finite s last.1.mantissa last.2 (Nat.pos_of_ne_zero h) := by
    unfold roundWithAccuracy
    rw [hfine.shiftToTargetExponent]
  by_cases hcarry : (shifted m e).roundedMantissa = 2 ^ 53
  · refine ⟨2 ^ 52, gridExponent m e + 1, ⟨by norm_num, by omega, .inl le_rfl⟩, ?_, ?_⟩
    · intro a c h
      have hsize : size (2 ^ 52) (gridExponent m e + 1) =
          (shifted m e).roundedMantissa * (2 : ℚ) ^ gridExponent m e := by
        rw [hcarry, size, zpow_add₀ (by norm_num)]
        push_cast
        ring
      rw [hsize]
      exact hfine.nearest hm h
    · rw [hround, hcarry, shiftToTargetExponent_carry hleast]
      rfl
  · have hgrid : OnGrid (shifted m e).roundedMantissa (gridExponent m e) :=
      ⟨lt_of_le_of_ne shifted_le hcarry, hleast, le_shifted hm hfine⟩
    refine ⟨_, _, hgrid, fun a c h => hfine.nearest hm h, ?_⟩
    rw [hround, shiftToTargetExponent_of_onGrid hgrid]
    rfl

/-! ## Order on the grid -/

theorem OnGrid.size_lt_of_lt {m n : ℕ} {e f : ℤ} (h : OnGrid m e) (h' : OnGrid n f) (hlt : e < f) :
    size m e < size n f := by
  have hnormal : 2 ^ 52 ≤ n := by
    have := h.least
    exact h'.normal.resolve_right (by omega)
  have hsmall : (m : ℚ) < 2 ^ 53 := by exact_mod_cast h.small
  have hlarge : (2 : ℚ) ^ 52 ≤ n := by exact_mod_cast hnormal
  have hunit : (0 : ℚ) < 2 ^ e := zpow_pos (by norm_num) e
  have hstep : (2 : ℚ) ^ (e + 1) ≤ 2 ^ f := zpow_le_zpow_right₀ (by norm_num) hlt
  rw [zpow_add₀ (by norm_num), zpow_one] at hstep
  unfold size
  nlinarith

/-- Numbers on the grid are ordered by their exponents, then by their mantissas. -/
theorem OnGrid.size_lt_iff {m n : ℕ} {e f : ℤ} (h : OnGrid m e) (h' : OnGrid n f) :
    size m e < size n f ↔ e < f ∨ e = f ∧ m < n := by
  rcases lt_trichotomy e f with hlt | rfl | hgt
  · exact iff_of_true (h.size_lt_of_lt h' hlt) (.inl hlt)
  · have hunit : (0 : ℚ) < 2 ^ e := zpow_pos (by norm_num) e
    simp [size, mul_lt_mul_iff_left₀ hunit]
  · have := h'.size_lt_of_lt h hgt
    exact iff_of_false this.not_gt (by omega)

theorem OnGrid.eq_of_size_eq {m n : ℕ} {e f : ℤ} (h : OnGrid m e) (h' : OnGrid n f)
    (heq : size m e = size n f) : m = n ∧ e = f := by
  have hlt := (h.size_lt_iff h').not.mp heq.not_lt
  have hgt := (h'.size_lt_iff h).not.mp heq.not_gt
  omega

/-- The distance between neighbours next to zero. -/
def tiny : ℚ := 2 ^ (-1074 : ℤ)

theorem OnGrid.exists_multiple {m : ℕ} {e : ℤ} (h : OnGrid m e) : ∃ k : ℕ, size m e = k * tiny := by
  obtain ⟨k, hk⟩ := Int.le.dest h.least
  refine ⟨m * 2 ^ k, ?_⟩
  rw [size, tiny, ← hk, zpow_add₀ (by norm_num), zpow_natCast, Nat.cast_mul, Nat.cast_pow,
    Nat.cast_ofNat, mul_assoc, mul_comm ((2 : ℚ) ^ k)]

/-- Different numbers on the grid are not nearer than its finest unit. -/
theorem OnGrid.add_tiny_le {m n : ℕ} {e f : ℤ} (h : OnGrid m e) (h' : OnGrid n f)
    (hlt : size m e < size n f) : size m e + tiny ≤ size n f := by
  obtain ⟨k, hk⟩ := h.exists_multiple
  obtain ⟨l, hl⟩ := h'.exists_multiple
  have hpos : 0 < tiny := zpow_pos (by norm_num) _
  rw [hk, hl] at hlt ⊢
  have hkl : k < l := by exact_mod_cast lt_of_mul_lt_mul_right hlt hpos.le
  have hstep : (k : ℚ) + 1 ≤ l := by exact_mod_cast hkl
  calc k * tiny + tiny = (k + 1) * tiny := by ring
    _ ≤ l * tiny := mul_le_mul_of_nonneg_right hstep hpos.le

/-- A number with a short mantissa is followed by the next multiple of its unit. -/
theorem OnGrid.succ {m : ℕ} {e : ℤ} (h : OnGrid m e) :
    ∃ n f, OnGrid n f ∧ size n f = size m e + 2 ^ e := by
  by_cases hcarry : m + 1 = 2 ^ 53
  · have hleast := h.least
    refine ⟨2 ^ 52, e + 1, ⟨by norm_num, by omega, .inl le_rfl⟩, ?_⟩
    have hm : (m : ℚ) + 1 = 2 ^ 53 := by exact_mod_cast hcarry
    rw [size, size, zpow_add₀ (by norm_num), eq_sub_of_add_eq hm]
    push_cast
    ring
  · have hsmall := h.small
    refine ⟨m + 1, e, ⟨by omega, h.least, ?_⟩, ?_⟩
    · rcases h.normal with hnormal | hleast
      · exact .inl (by omega)
      · exact .inr hleast
    · rw [size, size]
      push_cast
      ring

/-! ## Doubles -/

/-- A finite double has its mantissa and its exponent from its bits, below the normal range without
a leading one. -/
theorem bits_of_unpack {x : Float.Model} {s : Sign} {m : ℕ} {e : ℤ} {hm : 0 < m}
    (h : x.unpack = .finite s m e hm) :
    let mantissa := (@unpackMantissa .binary64 x.toBits.toBitVec).toNat
    let exponent := (@unpackExponent .binary64 x.toBits.toBitVec).toNat
    s = Sign.ofBitVec (@unpackSign .binary64 x.toBits.toBitVec) ∧
      (exponent = 0 ∧ m = mantissa ∧ e = -1074 ∨
        0 < exponent ∧ exponent < 2047 ∧ m = 2 ^ 52 + mantissa ∧ e = exponent - 1075) := by
  intro mantissa exponent
  have hbias : (Format.binary64.exponentBias : ℤ) = 1023 := by decide
  have hmantissa := (@unpackMantissa .binary64 x.toBits.toBitVec).isLt
  have hexponent := (@unpackExponent .binary64 x.toBits.toBitVec).isLt
  change mantissa < 2 ^ 52 at hmantissa
  change exponent < 2 ^ 11 at hexponent
  unfold Float.Model.unpack UnpackedFloat.unpack at h
  dsimp only at h
  split at h
  · split at h <;> cases h
  · rename_i hinf
    split at h
    · rename_i hzero
      split at h
      · cases h
      · injection h with hs hm' he'
        have hexp : exponent = 0 := congrArg BitVec.toNat hzero
        change (exponent : ℤ) - _ + 1 = e at he'
        rw [hexp, hbias] at he'
        push_cast at he'
        exact ⟨hs.symm, .inl ⟨hexp, hm'.symm, by omega⟩⟩
    · rename_i hzero
      injection h with hs hm' he'
      have hnonzero : exponent ≠ 0 := fun hexp => hzero (BitVec.eq_of_toNat_eq hexp)
      have hmax : exponent ≠ 2047 := fun hexp => hinf (BitVec.eq_of_toNat_eq hexp)
      change (exponent : ℤ) - _ = e at he'
      rw [hbias] at he'
      push_cast at he'
      have happend : (1#1 ++ @unpackMantissa .binary64 x.toBits.toBitVec).toNat =
          2 ^ 52 + mantissa := by
        rw [BitVec.toNat_append, ← Nat.shiftLeft_add_eq_or_of_lt hmantissa]
        rfl
      rw [happend] at hm'
      exact ⟨hs.symm, .inr ⟨by omega, by omega, hm'.symm, by omega⟩⟩

theorem onGrid_of_unpack {x : Float.Model} {s : Sign} {m : ℕ} {e : ℤ} {hm : 0 < m}
    (h : x.unpack = .finite s m e hm) : OnGrid m e ∧ e ≤ 971 := by
  have hmantissa := (@unpackMantissa .binary64 x.toBits.toBitVec).isLt
  change _ < 2 ^ 52 at hmantissa
  obtain ⟨-, ⟨-, hm', he⟩ | ⟨hlow, hhigh, hm', he⟩⟩ := bits_of_unpack h
  · exact ⟨⟨by omega, by omega, .inr he⟩, by omega⟩
  · exact ⟨⟨by omega, by omega, .inl (by omega)⟩, by omega⟩

theorem unpack_pack_infinity (s : Sign) :
    (Float.Model.pack (.infinity s)).unpack = .infinity s := by
  cases s <;> rfl

theorem append_one_toNat {m : ℕ} (hlow : 2 ^ 52 ≤ m) (hhigh : m < 2 ^ 53) :
    (1#1 ++ BitVec.ofNat 52 m).toNat = m := by
  have hrest : (BitVec.ofNat 52 m).toNat = m - 2 ^ 52 := by
    rw [BitVec.toNat_ofNat]
    omega
  have hone : (1#1).toNat = 1 := rfl
  rw [BitVec.toNat_append, ← Nat.shiftLeft_add_eq_or_of_lt (BitVec.isLt _), hrest, hone,
    Nat.shiftLeft_eq]
  omega

/-- What is on the grid survives packing, unless its exponent is too large. -/
theorem unpack_pack_of_onGrid {s : Sign} {m : ℕ} {e : ℤ} {hm : 0 < m} (h : OnGrid m e) :
    (Float.Model.pack (.finite s m e hm)).unpack =
      if e ≤ 971 then .finite s m e hm else .infinity s := by
  have hleast := h.least
  have hsmall := h.small
  have hbias : (Format.binary64.exponentBias : ℤ) = 1023 := by decide
  have hpack : UnpackedFloat.pack .binary64 (.finite s m e hm) =
      if 2 ^ 11 ≤ (e + 1075).toNat + 1 then packedInfinity .binary64 s
      else if m.log2 + 1 = 53 then
        packComponents .binary64 s (BitVec.ofNat 11 (e + 1075).toNat) (BitVec.ofNat 52 m)
      else packComponents .binary64 s 0#11 (BitVec.ofNat 52 m) := by
    unfold UnpackedFloat.pack
    simp only [hbias, add_assoc]
    rfl
  change UnpackedFloat.unpack .binary64 (UnpackedFloat.pack .binary64 (.finite s m e hm)) = _
  rw [hpack]
  by_cases hoverflow : e ≤ 971
  · rw [if_neg (by omega), if_pos hoverflow]
    have hsign : Sign.ofBitVec s.toBitVec = s := Sign.ofBitVec_toBitVec s
    by_cases hnormal : 2 ^ 52 ≤ m
    · have hlog : m.log2 + 1 = 53 := by
        have := (Nat.log2_eq_iff (n := m) (k := 52) (by omega)).mpr ⟨hnormal, hsmall⟩
        omega
      have hexp : (BitVec.ofNat 11 (e + 1075).toNat).toNat = (e + 1075).toNat := by
        rw [BitVec.toNat_ofNat]
        omega
      have hmax : BitVec.ofNat 11 (e + 1075).toNat ≠ -1#11 := by
        intro heq
        have := congrArg BitVec.toNat heq
        rw [hexp] at this
        simp at this
        omega
      have hzero : BitVec.ofNat 11 (e + 1075).toNat ≠ 0#11 := by
        intro heq
        have := congrArg BitVec.toNat heq
        rw [hexp] at this
        simp at this
        omega
      have hexponent : ((e + 1075).toNat : ℤ) - (1023 + (52 : ℕ)) = e := by
        push_cast
        omega
      rw [if_pos hlog]
      simp only [UnpackedFloat.unpack, unpackMantissa_packComponents,
        unpackExponent_packComponents, unpackSign_packComponents, hsign, if_neg hmax, if_neg hzero,
        hexp, append_one_toNat hnormal hsmall, hbias, hexponent]
    · have hlog : m.log2 + 1 ≠ 53 := by
        have := (Nat.log2_lt (n := m) (k := 52) (by omega)).mpr (by omega)
        omega
      have hrest : (BitVec.ofNat 52 m).toNat = m := by
        rw [BitVec.toNat_ofNat]
        omega
      have hzero : BitVec.ofNat 52 m ≠ 0#52 := by
        intro heq
        have := congrArg BitVec.toNat heq
        rw [hrest] at this
        simp at this
        omega
      have hmax : (0#11) ≠ -1#11 := by decide
      have he : e = -1074 := h.normal.resolve_left hnormal
      rw [if_neg hlog]
      simp only [UnpackedFloat.unpack, unpackMantissa_packComponents,
        unpackExponent_packComponents, unpackSign_packComponents, hsign, if_neg hmax, if_true,
        dif_neg hzero, hrest, hbias, he]
      rfl
  · rw [if_pos (by omega), if_neg hoverflow]
    exact unpack_pack_infinity s

end Downhill.FloatGrid
