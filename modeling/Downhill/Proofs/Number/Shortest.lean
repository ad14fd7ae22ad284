import Mathlib
import Downhill.Decimal.Digits
import Downhill.Proofs.Number.Rounding

/-! # Shortest digits

The digits that single a double out among its neighbours spell a number in the interval around it.
Seventeen digits are always enough: on that grid the interval is longer than a step.
-/

namespace Downhill

open FloatGrid

/-! ## Digit counts -/

namespace Decimal

theorem lt_pow_digitCount (n : ℕ) : n < 10 ^ digitCount n :=
  (Nat.length_toDigits_le_iff (by norm_num) Nat.length_toDigits_pos).mp le_rfl

theorem pow_le_of_digitCount {n : ℕ} (hn : 0 < n) : 10 ^ (digitCount n - 1) ≤ n := by
  rcases Nat.lt_or_ge 1 (digitCount n) with hlong | hshort
  · by_contra hlt
    have hle := (Nat.length_toDigits_le_iff (by norm_num) (by omega)).mpr (not_le.mp hlt)
    change digitCount n ≤ digitCount n - 1 at hle
    omega
  · have : digitCount n - 1 = 0 := by omega
    rw [this, pow_zero]
    exact hn

theorem digitCount_pos (n : ℕ) : 0 < digitCount n := Nat.length_toDigits_pos

end Decimal

namespace Dyadic

open Decimal

/-! ## Magnitudes -/

/-- The magnitude is the power of ten just above a quotient. -/
theorem magnitude_spec {num den : ℕ} (hnum : 0 < num) (hden : 0 < den) :
    (10 : ℚ) ^ (magnitude num den - 1) ≤ num / den ∧ (num / den : ℚ) < 10 ^ magnitude num den := by
  have hden' : (0 : ℚ) < den := by exact_mod_cast hden
  rw [le_div_iff₀ hden', div_lt_iff₀ hden']
  unfold magnitude
  split
  · rename_i hle
    have hq : 0 < num / den := Nat.div_pos hle hden
    obtain ⟨k, hk⟩ := Nat.exists_eq_succ_of_ne_zero (digitCount_pos (num / den)).ne'
    have hlow := pow_le_of_digitCount hq
    have hhigh := lt_pow_digitCount (num / den)
    rw [hk] at hlow hhigh ⊢
    have hexp : ((k.succ : ℕ) : ℤ) - 1 = (k : ℕ) := by omega
    rw [hexp, zpow_natCast, zpow_natCast]
    constructor
    · exact_mod_cast (Nat.le_div_iff_mul_le hden).mp hlow
    · exact_mod_cast (Nat.div_lt_iff_lt_mul hden).mp hhigh
  · rename_i hlt
    have hq : 0 < (den - 1) / num := Nat.div_pos (by omega) hnum
    obtain ⟨k, hk⟩ := Nat.exists_eq_succ_of_ne_zero (digitCount_pos ((den - 1) / num)).ne'
    have hlow := pow_le_of_digitCount hq
    have hhigh := lt_pow_digitCount ((den - 1) / num)
    rw [hk] at hlow hhigh ⊢
    have hlow' : 10 ^ k * num ≤ den - 1 := (Nat.le_div_iff_mul_le hnum).mp hlow
    have hhigh' : den - 1 < 10 ^ (k + 1) * num := (Nat.div_lt_iff_lt_mul hnum).mp hhigh
    have hexp : (1 : ℤ) - (k.succ : ℕ) - 1 = -((k + 1 : ℕ) : ℤ) := by omega
    have hexp' : (1 : ℤ) - (k.succ : ℕ) = -(k : ℤ) := by omega
    rw [hexp, hexp', zpow_neg, zpow_neg, zpow_natCast, zpow_natCast]
    constructor
    · rw [inv_mul_le_iff₀ (by positivity)]
      exact_mod_cast (by omega : den ≤ 10 ^ (k + 1) * num)
    · rw [lt_inv_mul_iff₀ (by positivity)]
      exact_mod_cast (by omega : 10 ^ k * num < den)

/-! ## Grids -/

variable {x : Dyadic}

/-- What is asked of the parts of a dyadic number: the interval is shorter below a power of two
only. -/
structure Regular (x : Dyadic) : Prop where
  grid : OnGrid x.significand x.exponent
  pos : 0 < x.significand
  narrow : x.narrowBelow = true ↔ x.significand = 2 ^ 52 ∧ x.exponent ≠ -1074

theorem zpow_mul_toNat {b : ℚ} (hb : b ≠ 0) (e : ℤ) : b ^ e * b ^ (-e).toNat = b ^ e.toNat := by
  rw [← zpow_natCast, ← zpow_natCast, ← zpow_add₀ hb]
  congr 1
  omega

theorem unit_eq (x : Dyadic) (e : ℤ) :
    (x.onGrid e).unit = 4 * 2 ^ (-x.exponent).toNat * 10 ^ e.toNat := by
  simp [onGrid, denominator, Nat.shiftLeft_eq]

theorem unit_pos (x : Dyadic) (e : ℤ) : 0 < (x.onGrid e).unit := by
  rw [unit_eq]
  positivity

/-- Where a count of quarters stands on a grid. -/
theorem scaled_eq (x : Dyadic) (e : ℤ) (a : ℕ) :
    ((a * 2 ^ x.exponent.toNat * 10 ^ (-e).toNat : ℕ) : ℚ) =
      a * 2 ^ x.exponent / 4 / 10 ^ e * (x.onGrid e).unit := by
  have hten : (10 : ℚ) ^ e ≠ 0 := zpow_ne_zero _ (by norm_num)
  rw [unit_eq]
  push_cast
  rw [← zpow_mul_toNat (by norm_num : (2 : ℚ) ≠ 0) x.exponent,
    ← zpow_mul_toNat (by norm_num : (10 : ℚ) ≠ 0) e]
  field_simp

theorem value_eq (x : Dyadic) (e : ℤ) :
    ((x.onGrid e).value : ℚ) = size x.significand x.exponent / 10 ^ e * (x.onGrid e).unit := by
  have hvalue : (x.onGrid e).value =
      4 * x.significand * 2 ^ x.exponent.toNat * 10 ^ (-e).toNat := by
    simp [onGrid, numerator, Nat.shiftLeft_eq, mul_assoc]
  rw [hvalue, scaled_eq, size]
  push_cast
  ring

theorem high_eq (x : Dyadic) (e : ℤ) : ((x.onGrid e).high : ℚ) =
    (size x.significand x.exponent + 2 ^ x.exponent / 2) / 10 ^ e * (x.onGrid e).unit := by
  have hhigh : (x.onGrid e).high =
      (4 * x.significand + 2) * 2 ^ x.exponent.toNat * 10 ^ (-e).toNat := by
    simp [onGrid, numerator, Nat.shiftLeft_eq]
    ring
  rw [hhigh, scaled_eq, size]
  push_cast
  ring

theorem Regular.low_eq (h : x.Regular) (e : ℤ) : ((x.onGrid e).low : ℚ) =
    (size x.significand x.exponent - halfBelow x.significand x.exponent) / 10 ^ e *
      (x.onGrid e).unit := by
  have hpos := h.pos
  have hlow : (x.onGrid e).low = (4 * x.significand - if x.narrowBelow then 1 else 2) *
      2 ^ x.exponent.toNat * 10 ^ (-e).toNat := by
    simp only [onGrid, numerator, Nat.shiftLeft_eq]
    split <;> simp [Nat.sub_mul, mul_assoc]
  rw [hlow, scaled_eq, size, halfBelow]
  by_cases hnarrow : x.narrowBelow = true
  · rw [if_pos hnarrow, if_pos (h.narrow.mp hnarrow), Nat.cast_sub (by omega)]
    push_cast
    ring
  · rw [if_neg hnarrow, if_neg (h.narrow.not.mp hnarrow), Nat.cast_sub (by omega)]
    push_cast
    ring

/-! ## The nearest point of a grid -/

section Nearest

variable {closed : Bool} {s : Scaled} {c : ℕ}

theorem lt_next (hunit : 0 < s.unit) : s.value < (s.value / s.unit + 1) * s.unit := by
  have hsplit := Nat.div_add_mod s.value s.unit
  have hrest := Nat.mod_lt s.value hunit
  rw [add_mul, one_mul, mul_comm]
  omega

/-- The chosen point lies in the interval, at an end only if the ends belong to it. -/
theorem nearest_spec (hunit : 0 < s.unit) (hlow : s.low < s.value) (hhigh : s.value < s.high)
    (hc : nearest closed s = some c) :
    (s.low ≤ c * s.unit ∧ c * s.unit ≤ s.high) ∧
      (s.low = c * s.unit ∨ c * s.unit = s.high → closed = true) := by
  have hdown : s.value / s.unit * s.unit ≤ s.value := Nat.div_mul_le_self _ _
  have hup := lt_next hunit
  unfold nearest at hc
  simp only at hc
  split at hc
  · rename_i hhits
    have := Option.some.inj hc
    split at this <;> subst this <;> simp at hhits <;> grind
  · split at hc
    · rename_i hhits
      obtain rfl := Option.some.inj hc
      simp at hhits
      grind
    · split at hc
      · rename_i hhits
        obtain rfl := Option.some.inj hc
        simp at hhits
        grind
      · cases hc

/-- An interval that is longer than a step holds a point of the grid. -/
theorem exists_nearest_eq (hunit : 0 < s.unit)
    (hstep : s.low + s.unit < s.high) : ∃ c, nearest closed s = some c := by
  have hdown : s.value / s.unit * s.unit ≤ s.value := Nat.div_mul_le_self _ _
  have hup := lt_next hunit
  have hhit : s.low < s.value / s.unit * s.unit ∨ (s.value / s.unit + 1) * s.unit < s.high := by
    rw [add_mul, one_mul] at hup ⊢
    omega
  unfold nearest
  simp only
  split
  · exact ⟨_, rfl⟩
  · split
    · exact ⟨_, rfl⟩
    · split
      · exact ⟨_, rfl⟩
      · rename_i hdownMiss hupMiss
        simp at hdownMiss hupMiss
        omega

end Nearest

theorem Regular.low_lt_value (h : x.Regular) (e : ℤ) : (x.onGrid e).low < (x.onGrid e).value := by
  have hhalf := halfBelow_pos x.significand x.exponent
  have hunit : (0 : ℚ) < (x.onGrid e).unit := by exact_mod_cast unit_pos x e
  have hten : (0 : ℚ) < 10 ^ e := zpow_pos (by norm_num) e
  rw [← Nat.cast_lt (α := ℚ), h.low_eq, value_eq]
  gcongr
  linarith

theorem value_lt_high (x : Dyadic) (e : ℤ) : (x.onGrid e).value < (x.onGrid e).high := by
  have htwo : (0 : ℚ) < 2 ^ x.exponent := zpow_pos (by norm_num) _
  have hunit : (0 : ℚ) < (x.onGrid e).unit := by exact_mod_cast unit_pos x e
  have hten : (0 : ℚ) < 10 ^ e := zpow_pos (by norm_num) e
  rw [← Nat.cast_lt (α := ℚ), high_eq, value_eq]
  gcongr
  linarith

/-- Whatever is chosen on a grid rounds to the number. -/
theorem Regular.roundsTo (h : x.Regular) {e : ℤ} {c : ℕ}
    (hc : nearest (x.significand % 2 == 0) (x.onGrid e) = some c) :
    RoundsTo (c * 10 ^ e) x.significand x.exponent := by
  have hunit : (0 : ℚ) < (x.onGrid e).unit := by exact_mod_cast unit_pos x e
  have hten : (0 : ℚ) < 10 ^ e := zpow_pos (by norm_num) e
  obtain ⟨⟨hlow, hhigh⟩, htie⟩ :=
    nearest_spec (unit_pos x e) (h.low_lt_value e) (value_lt_high x e) hc
  rw [← Nat.cast_le (α := ℚ), h.low_eq, Nat.cast_mul, mul_le_mul_iff_left₀ hunit,
    div_le_iff₀ hten] at hlow
  rw [← Nat.cast_le (α := ℚ), high_eq, Nat.cast_mul, mul_le_mul_iff_left₀ hunit,
    le_div_iff₀ hten] at hhigh
  refine ⟨hlow, hhigh, fun heq => ?_⟩
  have hclosed := htie (heq.imp (fun heq => ?_) fun heq => ?_)
  · simpa using hclosed
  · rw [← Nat.cast_inj (R := ℚ), h.low_eq, ← heq, Nat.cast_mul, mul_div_cancel_right₀ _ hten.ne']
  · rw [← Nat.cast_inj (R := ℚ), high_eq, ← heq, Nat.cast_mul, mul_div_cancel_right₀ _ hten.ne']

/-! ## Enough digits -/

theorem size_eq (x : Dyadic) :
    size x.significand x.exponent = (x.numerator : ℚ) / x.denominator := by
  have hden : (2 : ℚ) ^ (-x.exponent).toNat ≠ 0 := by positivity
  rw [size, numerator, denominator, Nat.shiftLeft_eq, Nat.shiftLeft_eq]
  push_cast
  rw [eq_div_iff (by positivity), one_mul, mul_assoc, zpow_mul_toNat (by norm_num)]

theorem Regular.magnitude (h : x.Regular) :
    10 ^ (x.decimalMagnitude - 1) ≤ size x.significand x.exponent ∧
      size x.significand x.exponent < 10 ^ x.decimalMagnitude := by
  rw [size_eq]
  refine magnitude_spec ?_ ?_
  · rw [numerator, Nat.shiftLeft_eq]
    exact Nat.mul_pos h.pos (by positivity)
  · rw [denominator, Nat.shiftLeft_eq]
    positivity

/-- Where seventeen digits are left, a step is shorter than the interval. -/
theorem Regular.exists_nearest (h : x.Regular) (closed : Bool) :
    ∃ c, nearest closed (x.onGrid (x.decimalMagnitude - 17)) = some c := by
  refine exists_nearest_eq (unit_pos x _) ?_
  have hunit : (0 : ℚ) < (x.onGrid (x.decimalMagnitude - 17)).unit := by
    exact_mod_cast unit_pos x _
  have htwo : (0 : ℚ) < 2 ^ x.exponent := zpow_pos (by norm_num) _
  have hten : (0 : ℚ) < 10 ^ (x.decimalMagnitude - 17) := zpow_pos (by norm_num) _
  have hstep : (10 : ℚ) ^ (x.decimalMagnitude - 17) * 10 ^ 16 ≤ x.significand * 2 ^ x.exponent := by
    have hmagnitude := h.magnitude.1
    rwa [(by omega : x.decimalMagnitude - 1 = x.decimalMagnitude - 17 + 16),
      zpow_add₀ (by norm_num)] at hmagnitude
  have hlong : (10 : ℚ) ^ (x.decimalMagnitude - 17) <
      halfBelow x.significand x.exponent + 2 ^ x.exponent / 2 := by
    unfold halfBelow
    split
    · rename_i hnarrow
      rw [hnarrow.1] at hstep
      push_cast at hstep
      norm_num at hstep
      linarith
    · have hsmall : (x.significand : ℚ) ≤ 2 ^ 53 := by exact_mod_cast h.grid.small.le
      have := mul_le_mul_of_nonneg_right hsmall htwo.le
      norm_num at hstep this
      linarith
  rw [← Nat.cast_lt (α := ℚ), Nat.cast_add, h.low_eq, high_eq]
  calc _ = ((size x.significand x.exponent - halfBelow x.significand x.exponent) /
        10 ^ (x.decimalMagnitude - 17) + 1) * (x.onGrid (x.decimalMagnitude - 17)).unit := by ring
    _ < _ := by
      refine mul_lt_mul_of_pos_right ?_ hunit
      rw [div_add_one hten.ne', div_lt_div_iff_of_pos_right hten]
      linarith

theorem firstHit_spec {count : ℕ} {e : ℤ}
    (hlast : ∃ c, nearest (x.significand % 2 == 0) (x.onGrid (e - count)) = some c) :
    ∃ c f, x.firstHit (count + 1) e = .ofScaled c f ∧ e - count ≤ f ∧ f ≤ e ∧
      nearest (x.significand % 2 == 0) (x.onGrid f) = some c := by
  induction count generalizing e with
  | zero =>
    obtain ⟨c, hc⟩ := hlast
    rw [Nat.cast_zero, sub_zero] at hc
    exact ⟨c, e, by rw [firstHit, hc], by simp, le_rfl, hc⟩
  | succ count ih =>
    rw [firstHit]
    rcases hhit : nearest (x.significand % 2 == 0) (x.onGrid e) with _ | c
    · have hexp : e - (count + 1 : ℕ) = e - 1 - count := by
        push_cast
        ring
      obtain ⟨c, f, hfirst, hlow, hhigh, hc⟩ := ih (hexp ▸ hlast)
      exact ⟨c, f, hfirst, by omega, by omega, hc⟩
    · exact ⟨c, e, rfl, by omega, le_rfl, hhit⟩

theorem Regular.magnitude_bounds (h : x.Regular) (he : x.exponent ≤ 971) :
    -324 < x.decimalMagnitude ∧ x.decimalMagnitude ≤ 309 := by
  obtain ⟨hlow, hhigh⟩ := h.magnitude
  constructor
  · have htiny : (10 : ℚ) ^ (-324 : ℤ) < 2 ^ (-1074 : ℤ) := by
      have hpow : 2 ^ 1074 < 10 ^ 324 := by decide +kernel
      rw [zpow_neg, zpow_neg, inv_lt_inv₀ (by positivity) (by positivity)]
      exact_mod_cast hpow
    have hleast : (2 : ℚ) ^ (-1074 : ℤ) ≤ 2 ^ x.exponent :=
      zpow_le_zpow_right₀ (by norm_num) h.grid.least
    have hone : (1 : ℚ) ≤ x.significand := by exact_mod_cast h.pos
    have hsize : 2 ^ x.exponent ≤ size x.significand x.exponent :=
      le_mul_of_one_le_left (zpow_pos (by norm_num) _).le hone
    exact (zpow_lt_zpow_iff_right₀ (by norm_num : (1 : ℚ) < 10)).mp (by linarith)
  · have hhuge : (2 : ℚ) ^ (53 + 971 : ℤ) < 10 ^ (309 : ℤ) := by
      have hpow : 2 ^ (53 + 971) < 10 ^ 309 := by decide +kernel
      exact_mod_cast hpow
    have hmost : (2 : ℚ) ^ (53 + x.exponent) ≤ 2 ^ (53 + 971 : ℤ) :=
      zpow_le_zpow_right₀ (by norm_num) (by omega)
    have hsize := (roundsTo_self x.exponent).lt h.grid
    have := (zpow_lt_zpow_iff_right₀ (by norm_num : (1 : ℚ) < 10)).mp
      (by linarith : (10 : ℚ) ^ (x.decimalMagnitude - 1) < 10 ^ (309 : ℤ))
    omega

/-- The shortest digits are few, and stand for a number that rounds to the one they belong to. -/
theorem Regular.shortest_spec (h : x.Regular) (he : x.exponent ≤ 971) :
    ∃ c f, x.shortest = .ofScaled c f ∧ RoundsTo (c * 10 ^ f) x.significand x.exponent ∧ 0 < c ∧
      digitCount c ≤ 18 ∧ (f + digitCount c).natAbs ≤ 340 := by
  have hexp : x.decimalMagnitude - 1 - (16 : ℕ) = x.decimalMagnitude - 17 := by
    push_cast
    ring
  obtain ⟨c, f, hfirst, hlow, hhigh, hc⟩ :=
    firstHit_spec (e := x.decimalMagnitude - 1) (hexp ▸ h.exists_nearest _)
  have hrounds := h.roundsTo hc
  obtain ⟨hpos, htwice⟩ := hrounds.bounds h.pos
  have hten : (0 : ℚ) < 10 ^ f := zpow_pos (by norm_num) f
  have hcpos : 0 < c := by exact_mod_cast (pos_iff_pos_of_mul_pos hpos).mpr hten
  have hsmall : digitCount c ≤ 18 := by
    refine (Nat.length_toDigits_le_iff (by norm_num) (by norm_num)).mpr ?_
    have hstep : (10 : ℚ) ^ x.decimalMagnitude ≤ 10 ^ (17 : ℕ) * 10 ^ f := by
      rw [← zpow_natCast, ← zpow_add₀ (by norm_num)]
      exact zpow_le_zpow_right₀ (by norm_num) (by push_cast; omega)
    have hlt : (c : ℚ) * 10 ^ f < 10 ^ 18 * 10 ^ f := by
      have := h.magnitude.2
      norm_num at hstep ⊢
      linarith
    exact_mod_cast lt_of_mul_lt_mul_right hlt hten.le
  have hdigits := digitCount_pos c
  obtain ⟨hleast, hmost⟩ := h.magnitude_bounds he
  exact ⟨c, f, hfirst, hrounds, hcpos, hsmall, by omega⟩

end Dyadic

end Downhill
