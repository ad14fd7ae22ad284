import Mathlib
import Downhill.Proofs.Number.Quotient

/-! # Factors below one

A positive double that is multiplied by a factor below one does not grow, but it may vanish: it does
if the exact product is at most half the smallest double. A factor above one half never makes a
number vanish, and any other one does so in the end.
-/

namespace Downhill.FloatGrid

open Float.Model Float.Model.UnpackedFloat

/-! ## Points of the grid -/

theorem tiny_pos : 0 < tiny := zpow_pos (by norm_num) _

theorem onGrid_tiny : OnGrid 1 (-1074) := ⟨by norm_num, le_rfl, .inr rfl⟩

theorem size_tiny : size 1 (-1074) = tiny := by rw [size, tiny, Nat.cast_one, one_mul]

/-- The smallest positive double is the smallest unit of the grid. -/
theorem Holds.tiny_le {x : Float} {m : ℕ} {e : ℤ} (h : Holds x m e) : tiny ≤ size m e := by
  obtain ⟨k, hk⟩ := h.onGrid.exists_multiple
  have hpos := h.size_pos
  rw [hk] at hpos ⊢
  have hk' : 0 < (k : ℚ) := pos_of_mul_pos_left hpos tiny_pos.le
  have hone : (1 : ℚ) ≤ k := by exact_mod_cast hk'
  exact le_mul_of_one_le_left tiny_pos.le hone

/-- All finite doubles lie below a power of two. -/
theorem OnGrid.size_lt {m : ℕ} {e : ℤ} (h : OnGrid m e) (he : e ≤ 971) :
    size m e < 2 ^ (1024 : ℤ) := by
  have hsmall : (m : ℚ) < 2 ^ 53 := by exact_mod_cast h.small
  have hunit : (0 : ℚ) < 2 ^ e := zpow_pos (by norm_num) e
  have hexponent : (2 : ℚ) ^ e ≤ 2 ^ (971 : ℤ) := zpow_le_zpow_right₀ (by norm_num) he
  calc size m e < 2 ^ 53 * 2 ^ e := mul_lt_mul_of_pos_right hsmall hunit
    _ ≤ 2 ^ 53 * 2 ^ (971 : ℤ) := mul_le_mul_of_nonneg_left hexponent (by norm_num)
    _ = 2 ^ (1024 : ℤ) := by rw [← zpow_natCast, ← zpow_add₀ (by norm_num)]; norm_num

theorem Holds.size_lt {x : Float} {m : ℕ} {e : ℤ} (h : Holds x m e) :
    size m e < 2 ^ (1024 : ℤ) := h.onGrid.size_lt h.exponent_le

/-- The powers of two between the smallest and the largest double. -/
theorem exists_onGrid_two_pow {j : ℤ} (hlow : -1074 ≤ j) (hhigh : j ≤ 1023) :
    ∃ a c, OnGrid a c ∧ c ≤ 971 ∧ size a c = 2 ^ j := by
  by_cases hnormal : -1022 ≤ j
  · refine ⟨2 ^ 52, j - 52, ⟨by norm_num, by omega, .inl le_rfl⟩, by omega, ?_⟩
    rw [size_two_pow]
    congr 1
    omega
  · obtain ⟨k, rfl⟩ := Int.le.dest hlow
    have hk : 2 ^ k < 2 ^ 53 := Nat.pow_lt_pow_right (by norm_num) (by omega)
    refine ⟨2 ^ k, -1074, ⟨hk, le_rfl, .inr rfl⟩, by norm_num, ?_⟩
    rw [size_two_pow, add_comm]

/-! ## Bounded doubles -/

section Bounded

variable {x : Float} (hpos : 0.0 < x)

include hpos

theorem exists_holds_of_isFinite (hfinite : x.isFinite = true) : ∃ m e, Holds x m e := by
  refine ((zero_lt_iff x).mp hpos).resolve_left fun hexceeds => ?_
  rw [isFinite_eq_unpack, hexceeds] at hfinite
  contradiction

theorem exists_holds_of_lt_one (hlt : x < 1.0) : ∃ m e, Holds x m e ∧ size m e < 1 := by
  rcases (zero_lt_iff x).mp hpos with hexceeds | ⟨m, e, hholds⟩
  · have hle := Scalar.Ordered.le_of_lt (holds_one.lt_of_exceeds hexceeds)
    exact absurd (Scalar.Ordered.lt_of_le_of_lt hle hlt) (Scalar.Ordered.lt_irrefl _)
  · have hsize := (hholds.lt_iff holds_one).mp hlt
    rw [size_two_pow] at hsize
    norm_num at hsize
    exact ⟨m, e, hholds, hsize⟩

end Bounded

theorem holds_half : Holds 0.5 (2 ^ 52) (-53) := ⟨by norm_num, rfl⟩

theorem Holds.half_lt_iff {x : Float} {m : ℕ} {e : ℤ} (h : Holds x m e) :
    0.5 < x ↔ 1 / 2 < size m e := by
  rw [holds_half.lt_iff h, size_two_pow]
  norm_num

/-! ## Products -/

/-- What is at most half the smallest unit is rounded to zero; half of it is, since zero is even. -/
theorem Leads.round_zero {m : ℕ} {e : ℤ} {acc : Accuracy} {q : ℚ} (h : Leads m e acc q) (s : Sign)
    (hnonneg : 0 ≤ q) (hq : q ≤ tiny / 2) : roundWithAccuracy .binary64 s m e acc = .zero s := by
  obtain ⟨em, hshift, hem⟩ := h.shift
  have hpos := tiny_pos
  have hleast : gridExponent m e = -1074 := by
    refine h.gridExponent_eq_least ?_
    calc q ≤ tiny / 2 := hq
      _ < tiny := half_lt_self hpos
      _ ≤ 2 ^ (53 + -1074 : ℤ) := zpow_le_zpow_right₀ (by norm_num) (by norm_num)
  rw [hleast] at hshift hem
  have hunits : q / tiny ≤ 1 / 2 := by
    rw [div_le_iff₀ hpos]
    linarith
  have hzero : em.roundedMantissa = 0 := by
    refine Measures.rounded_eq (t := q / tiny) hem ⟨?_, ?_, fun _ => rfl⟩
    · have := div_nonneg hnonneg hpos.le
      norm_num
      linarith
    · norm_num
      linarith
  have hgrid : OnGrid 0 (-1074) := ⟨by norm_num, le_rfl, .inr rfl⟩
  unfold roundWithAccuracy
  rw [hshift]
  simp only [hzero, shiftToTargetExponent_of_onGrid hgrid]
  rfl

section Products

variable {x y : Float} {m n : ℕ} {e f : ℤ} {q : ℚ}

/-- The exact product, as the number that is rounded. -/
theorem Holds.leads_mul (h : Holds x m e) (h' : Holds y n f) :
    Leads (m * n) (e + f) .exact (size m e * size n f) ∧ (x * y).toModel.unpack =
      (Float.Model.pack (roundWithAccuracy .binary64 .positive (m * n) (e + f) .exact)).unpack := by
  have hleads := leads_exact (h.fine_mul h')
  rw [size_mul] at hleads
  obtain ⟨_, hx⟩ := h
  obtain ⟨_, hy⟩ := h'
  exact ⟨hleads, by rw [unpack_mul, hx, hy]; rfl⟩

variable (h' : Holds y n f)

include h'

theorem Holds.zero_mul_eq : 0.0 * y = 0.0 := by
  obtain ⟨_, hy⟩ := h'
  refine eq_of_unpack ?_
  rw [unpack_mul, hy]
  rfl

theorem AtMost.mul (h : AtMost x q) {a : ℕ} {c : ℤ} (hgrid : OnGrid a c) (hfinite : c ≤ 971)
    (hle : q * size n f ≤ size a c) : AtMost (x * y) (size a c) := by
  rcases h with rfl | ⟨m, e, hholds, hq⟩
  · exact .inl h'.zero_mul_eq
  · obtain ⟨hleads, hunpack⟩ := hholds.leads_mul h'
    have hproduct := mul_le_mul_of_nonneg_right hq h'.size_pos.le
    exact hleads.atMost hunpack hgrid hfinite (hproduct.trans hle)

theorem AtMost.mul_eq_zero (h : AtMost x q) (hle : q * size n f ≤ tiny / 2) : x * y = 0.0 := by
  rcases h with rfl | ⟨m, e, hholds, hq⟩
  · exact h'.zero_mul_eq
  · obtain ⟨hleads, hunpack⟩ := hholds.leads_mul h'
    have hproduct := mul_le_mul_of_nonneg_right hq h'.size_pos.le
    have hnonneg := mul_nonneg hholds.size_pos.le h'.size_pos.le
    refine eq_of_unpack ?_
    rw [hunpack, hleads.round_zero .positive hnonneg (hproduct.trans hle)]
    rfl

end Products

/-- A factor above one half does not make a number vanish. -/
theorem Holds.mul_pos {x y : Float} {m n : ℕ} {e f : ℤ} (h : Holds x m e) (h' : Holds y n f)
    (hhalf : 1 / 2 < size n f) : 0.0 < x * y := by
  obtain ⟨r, g, hrounds, hmul⟩ := h.mul h'
  have hproduct : tiny / 2 < size m e * size n f := by
    calc tiny / 2 ≤ size m e * (1 / 2) := by linarith [h.tiny_le]
      _ < size m e * size n f := mul_lt_mul_of_pos_left hhalf h.size_pos
  have hr : 0 < r := by
    refine Nat.pos_of_ne_zero ?_
    rintro rfl
    -- Otherwise zero would be as near to the product as the smallest double is.
    have hnear := hrounds.2 1 (-1074) onGrid_tiny
    have hpos := tiny_pos
    rw [size_tiny, size, Nat.cast_zero, zero_mul, zero_sub, abs_neg,
      abs_of_pos (by linarith)] at hnear
    rcases abs_cases (tiny - size m e * size n f) with ⟨habs, _⟩ | ⟨habs, _⟩ <;> linarith
  have hproduct := hmul hr
  rw [zero_lt_iff]
  split at hproduct
  · exact .inr ⟨r, g, hproduct⟩
  · exact .inl hproduct

end Downhill.FloatGrid
