import Mathlib
import Downhill.Proofs.Number.Grid

/-! # Rounding to a known double

A number between the midpoints around a double is rounded to it; a number on a midpoint is, if the
mantissa of the double is even. That holds for whatever is rounded: a quotient is known by its
leading bits and by where the rest of it lies.
-/

namespace Downhill.FloatGrid

open Float.Model Float.Model.UnpackedFloat

/-! ## Numbers with bits cut off -/

/-- What `em` tells of a number that is counted in units of the last place. -/
def Measures (em : ExtendedMantissa) (t : ℚ) : Prop :=
  if em.stickyBit then (halves em : ℚ) < 2 * t ∧ 2 * t < halves em + 1 else 2 * t = halves em

theorem measures_exact (m : ℕ) : Measures (.ofMantissaAndAccuracy m .exact) m := by
  simp [Measures, halves, ExtendedMantissa.ofMantissaAndAccuracy]

/-- A quotient is measured by its whole part and by twice the remainder. -/
theorem measures_quotient (a : ℕ) {b : ℕ} (hb : 0 < b) :
    Measures (.ofMantissaAndAccuracy (a / b) (accuracyOfFraction (a % b) b)) (a / b : ℚ) := by
  have hpos : (0 : ℚ) < b := by exact_mod_cast hb
  have hsplit : (a / b : ℚ) = (a / b : ℕ) + (a % b : ℕ) / b := by
    rw [eq_comm, eq_div_iff hpos.ne', add_mul, div_mul_cancel₀ _ hpos.ne']
    exact_mod_cast Nat.div_add_mod' a b
  have hrest : a % b < b := Nat.mod_lt a hb
  rw [hsplit]
  generalize a / b = q at *
  generalize a % b = r at *
  unfold accuracyOfFraction
  split
  · rename_i hzero
    simpa [hzero] using measures_exact q
  · rename_i hzero
    have hr : (0 : ℚ) < r / b := div_pos (by exact_mod_cast Nat.pos_of_ne_zero hzero) hpos
    have hr' : (r / b : ℚ) < 1 := (div_lt_one hpos).mpr (by exact_mod_cast hrest)
    have htwice : 2 * (r / b : ℚ) = (2 * r : ℕ) / b := by push_cast; ring
    rcases hcompare : compare (2 * r) b with _ | _ | _
    · have hhalf : 2 * (r / b : ℚ) < 1 := by
        rw [htwice, div_lt_one hpos]
        exact_mod_cast Nat.compare_eq_lt.mp hcompare
      simp only [Measures, halves, ExtendedMantissa.ofMantissaAndAccuracy, if_true,
        Bool.toNat_false]
      push_cast
      constructor <;> linarith
    · have hhalf : 2 * (r / b : ℚ) = 1 := by
        rw [htwice, div_eq_one_iff_eq hpos.ne']
        exact_mod_cast Nat.compare_eq_eq.mp hcompare
      simp only [Measures, halves, ExtendedMantissa.ofMantissaAndAccuracy, Bool.false_eq_true,
        if_false, Bool.toNat_true]
      push_cast
      linarith
    · have hhalf : 1 < 2 * (r / b : ℚ) := by
        rw [htwice, one_lt_div hpos]
        exact_mod_cast Nat.compare_eq_gt.mp hcompare
      simp only [Measures, halves, ExtendedMantissa.ofMantissaAndAccuracy, if_true, Bool.toNat_true]
      push_cast
      constructor <;> linarith

theorem Measures.shiftRightOne {em : ExtendedMantissa} {t : ℚ} (h : Measures em t) :
    Measures em.shiftRightOne (t / 2) := by
  have hhalves := halves_shiftRightOne em
  rcases em with ⟨n, round, sticky⟩
  simp only [Measures, hhalves]
  cases round <;> cases sticky <;>
    simp only [Measures, halves, ExtendedMantissa.shiftRightOne, Bool.toNat_true, Bool.toNat_false,
      Bool.or_true, Bool.or_false, Bool.false_eq_true, if_true, if_false] at h ⊢ <;>
    push_cast at h
  · linarith
  · constructor <;> linarith
  · constructor <;> linarith
  · constructor <;> linarith

theorem Measures.shiftRight {em : ExtendedMantissa} {t : ℚ} (h : Measures em t) (k : ℕ) :
    Measures (em >>> k) (t / 2 ^ k) := by
  induction k with
  | zero =>
    rw [pow_zero, div_one]
    exact h
  | succ k ih =>
    rw [pow_succ, ← div_div]
    exact ih.shiftRightOne

/-- No whole number is nearer than `r`; if another one is as near, `r` is even. -/
structure Nearest (r : ℕ) (t : ℚ) : Prop where
  below : 2 * (r : ℚ) - 1 ≤ 2 * t
  above : 2 * t ≤ 2 * r + 1
  tie : 2 * t = 2 * r - 1 ∨ 2 * t = 2 * r + 1 → r % 2 = 0

theorem Measures.rounded_eq {em : ExtendedMantissa} {t : ℚ} {r : ℕ} (h : Measures em t)
    (hr : Nearest r t) : em.roundedMantissa = r := by
  obtain ⟨hbelow, habove, htie⟩ := hr
  have hlow : halves em + em.stickyBit.toNat ≤ 2 * r + 1 := by
    unfold Measures at h
    split at h
    · rename_i hsticky
      have : (halves em : ℚ) < 2 * r + 1 := by linarith
      rw [hsticky]
      exact_mod_cast this
    · rename_i hsticky
      have : (halves em : ℚ) ≤ 2 * r + 1 := by linarith
      rw [Bool.eq_false_of_not_eq_true hsticky]
      exact_mod_cast this
  have hhigh : 2 * r < halves em + 2 := by
    have : (2 * r : ℚ) < halves em + 2 := by
      unfold Measures at h
      split at h <;> linarith
    exact_mod_cast this
  have hmiddle : em.stickyBit = false → halves em = 2 * r + 1 ∨ halves em + 1 = 2 * r →
      r % 2 = 0 := by
    intro hsticky hhalves
    rw [Measures, hsticky, if_neg (by simp)] at h
    refine htie (hhalves.symm.imp (fun heq => ?_) fun heq => ?_)
    · have : (halves em : ℚ) + 1 = 2 * r := by exact_mod_cast heq
      linarith
    · have : (halves em : ℚ) = 2 * r + 1 := by exact_mod_cast heq
      linarith
  rcases em with ⟨n, _ | _, _ | _⟩ <;>
    simp [halves, ExtendedMantissa.roundedMantissa, ExtendedMantissa.accuracy,
      Accuracy.roundToNearestEven] at hlow hhigh hmiddle ⊢ <;>
    omega

/-! ## The interval around a double -/

/-- From a double halfway down to the one below it, which is nearer where the exponent changes. -/
def halfBelow (a : ℕ) (c : ℤ) : ℚ := if a = 2 ^ 52 ∧ c ≠ -1074 then 2 ^ c / 4 else 2 ^ c / 2

/-- The number lies in the interval of those that round to a double. -/
structure RoundsTo (q : ℚ) (a : ℕ) (c : ℤ) : Prop where
  below : size a c - halfBelow a c ≤ q
  above : q ≤ size a c + 2 ^ c / 2
  tie : q = size a c - halfBelow a c ∨ q = size a c + 2 ^ c / 2 → a % 2 = 0

theorem halfBelow_pos (a : ℕ) (c : ℤ) : 0 < halfBelow a c := by
  have hunit : (0 : ℚ) < 2 ^ c := zpow_pos (by norm_num) c
  unfold halfBelow
  split <;> linarith

theorem roundsTo_self {a : ℕ} (c : ℤ) : RoundsTo (size a c) a c := by
  have hunit : (0 : ℚ) < 2 ^ c := zpow_pos (by norm_num) c
  have hhalf := halfBelow_pos a c
  refine ⟨by linarith, by linarith, ?_⟩
  rintro (h | h) <;> linarith

/-- How a mantissa and what is known of its last bits stand for a number. -/
structure Leads (m : ℕ) (e : ℤ) (acc : Accuracy) (q : ℚ) : Prop where
  measures : Measures (.ofMantissaAndAccuracy m acc) (q / 2 ^ e)
  fine : Fine m e

theorem leads_exact {m : ℕ} {e : ℤ} (h : Fine m e) : Leads m e .exact (size m e) := by
  refine ⟨?_, h⟩
  have hunit : (0 : ℚ) < 2 ^ e := zpow_pos (by norm_num) e
  rw [size, mul_div_cancel_right₀ _ hunit.ne']
  exact measures_exact m

theorem Measures.floor {m : ℕ} {acc : Accuracy} {t : ℚ}
    (h : Measures (.ofMantissaAndAccuracy m acc) t) : m ≤ t ∧ t < m + 1 := by
  rcases acc with _ | _ | _ | _ <;>
    simp [Measures, halves, ExtendedMantissa.ofMantissaAndAccuracy] at h <;>
    constructor <;> linarith

section Leads

variable {m : ℕ} {e : ℤ} {acc : Accuracy} {q : ℚ}

theorem Leads.le (h : Leads m e acc q) : size m e ≤ q :=
  (le_div_iff₀ (zpow_pos (by norm_num) e)).mp h.measures.floor.1

theorem Leads.lt (h : Leads m e acc q) : q < size (m + 1) e := by
  have := (div_lt_iff₀ (zpow_pos (by norm_num) e)).mp h.measures.floor.2
  rwa [size, Nat.cast_add, Nat.cast_one]

theorem size_two_pow (k : ℕ) (e : ℤ) : size (2 ^ k) e = 2 ^ (k + e) := by
  rw [size, zpow_add₀ (by norm_num), zpow_natCast, Nat.cast_pow, Nat.cast_ofNat]

theorem size_mono {m n : ℕ} (h : m ≤ n) (e : ℤ) : size m e ≤ size n e :=
  mul_le_mul_of_nonneg_right (by exact_mod_cast h) (zpow_pos (by norm_num) e).le

/-- The leading bit of the mantissa is that of the number. -/
theorem Leads.log2_lt (h : Leads m e acc q) (hm : 0 < m) {k : ℤ} (hq : q < 2 ^ k) :
    m.log2 + e < k := by
  have hlead : (2 : ℚ) ^ (m.log2 + e) ≤ q := by
    rw [← size_two_pow]
    exact (size_mono (Nat.log2_self_le hm.ne') e).trans h.le
  exact (zpow_lt_zpow_iff_right₀ (by norm_num)).mp (hlead.trans_lt hq)

theorem Leads.le_log2 (h : Leads m e acc q) {k : ℤ} (hq : 2 ^ k ≤ q) : k ≤ m.log2 + e := by
  have hlead : q < (2 : ℚ) ^ ((m.log2 + 1 : ℕ) + e) := by
    rw [← size_two_pow]
    exact h.lt.trans_le (size_mono Nat.lt_log2_self e)
  have := (zpow_lt_zpow_iff_right₀ (by norm_num)).mp (hq.trans_lt hlead)
  omega

theorem Leads.gridExponent_eq (h : Leads m e acc q) {c : ℤ} (hc : -1074 ≤ c)
    (hlow : 2 ^ (52 + c) ≤ q) (hhigh : q < 2 ^ (53 + c)) : gridExponent m e = c := by
  have hm : 0 < m := by
    refine Nat.pos_of_ne_zero fun hzero => ?_
    have he : e ≤ -1074 := h.fine.resolve_left (by omega)
    have := h.le_log2 hlow
    simp [hzero] at this
    omega
  have := h.log2_lt hm hhigh
  have := h.le_log2 hlow
  unfold gridExponent
  omega

theorem Leads.gridExponent_eq_least (h : Leads m e acc q) (hhigh : q < 2 ^ (53 + -1074 : ℤ)) :
    gridExponent m e = -1074 := by
  rcases Nat.eq_zero_or_pos m with hzero | hm
  · have he : e ≤ -1074 := h.fine.resolve_left (by omega)
    simp [gridExponent, hzero]
    omega
  · have := h.log2_lt hm hhigh
    unfold gridExponent
    omega

/-- On the grid of the number, its bits are cut off. -/
theorem Leads.shift (h : Leads m e acc q) :
    ∃ em, shiftToTargetExponent .binary64 m e acc = (em, gridExponent m e) ∧
      Measures em (q / 2 ^ gridExponent m e) := by
  refine ⟨ExtendedMantissa.ofMantissaAndAccuracy m acc >>> surplus m e, ?_, ?_⟩
  · rw [← h.fine.exponent_eq]
    unfold shiftToTargetExponent shiftToExponent
    rw [targetExponent_eq]
    rfl
  · rw [← h.fine.exponent_eq, zpow_add₀ (by norm_num), ← div_div, zpow_natCast]
    exact h.measures.shiftRight _

theorem Leads.round_onGrid (h : Leads m e acc q) (s : Sign) {a : ℕ} (ha : 0 < a)
    (hgrid : OnGrid a (gridExponent m e)) (hnear : Nearest a (q / 2 ^ gridExponent m e)) :
    roundWithAccuracy .binary64 s m e acc = .finite s a (gridExponent m e) ha := by
  obtain ⟨em, hshift, hem⟩ := h.shift
  unfold roundWithAccuracy
  rw [hshift]
  simp only [hem.rounded_eq hnear, shiftToTargetExponent_of_onGrid hgrid]
  exact dif_neg ha.ne'

theorem Leads.round_carry (h : Leads m e acc q) (s : Sign)
    (hnear : Nearest (2 ^ 53) (q / 2 ^ gridExponent m e)) :
    roundWithAccuracy .binary64 s m e acc =
      .finite s (2 ^ 52) (gridExponent m e + 1) (by norm_num) := by
  obtain ⟨em, hshift, hem⟩ := h.shift
  have hleast : -1074 ≤ gridExponent m e := le_max_right _ _
  unfold roundWithAccuracy
  rw [hshift]
  simp only [hem.rounded_eq hnear, shiftToTargetExponent_carry hleast]
  rfl

end Leads

section RoundsTo

variable {q : ℚ} {a : ℕ} {c : ℤ}

theorem halfBelow_le (a : ℕ) (c : ℤ) : halfBelow a c ≤ 2 ^ c / 2 := by
  have hunit : (0 : ℚ) < 2 ^ c := zpow_pos (by norm_num) c
  unfold halfBelow
  split <;> linarith

/-- The interval in units of the double, where its lower half is not the shorter one. -/
theorem RoundsTo.nearest (h : RoundsTo q a c)
    (hhalf : halfBelow a c = 2 ^ c / 2 ∨ size a c ≤ q) : Nearest a (q / 2 ^ c) := by
  have hunit : (0 : ℚ) < 2 ^ c := zpow_pos (by norm_num) c
  have hbelow : size a c - 2 ^ c / 2 ≤ q := by linarith [h.below, halfBelow_le a c]
  have habove := h.above
  have htie : q = size a c - 2 ^ c / 2 ∨ q = size a c + 2 ^ c / 2 → a % 2 = 0 := by
    rintro (heq | heq)
    · rcases hhalf with hhalf | hsize
      · exact h.tie (.inl (by rw [hhalf, heq]))
      · linarith
    · exact h.tie (.inr heq)
  obtain ⟨t, rfl⟩ : ∃ t, q = t * 2 ^ c := ⟨q / 2 ^ c, by field_simp⟩
  rw [mul_div_cancel_right₀ _ hunit.ne']
  unfold size at hbelow habove htie
  refine ⟨?_, ?_, fun heq => htie (heq.imp (fun h => ?_) fun h => ?_)⟩
  · refine le_of_mul_le_mul_right ?_ hunit
    linarith
  · refine le_of_mul_le_mul_right ?_ hunit
    linarith
  · linear_combination (2 ^ c / 2 : ℚ) * h
  · linear_combination (2 ^ c / 2 : ℚ) * h

/-- The interval of a number reaches neither zero nor twice the number. -/
theorem RoundsTo.bounds (h : RoundsTo q a c) (ha : 0 < a) : 0 < q ∧ q < 2 * size a c := by
  have hunit : (0 : ℚ) < 2 ^ c := zpow_pos (by norm_num) c
  have hone : (1 : ℚ) ≤ a := by exact_mod_cast ha
  have hsize : 2 ^ c ≤ size a c := le_mul_of_one_le_left hunit.le hone
  have hhalf := halfBelow_le a c
  exact ⟨by linarith [h.below], by linarith [h.above]⟩

theorem RoundsTo.lt (h : RoundsTo q a c) (hgrid : OnGrid a c) : q < 2 ^ (53 + c) := by
  have hunit : (0 : ℚ) < 2 ^ c := zpow_pos (by norm_num) c
  have hsmall : (a : ℚ) + 1 ≤ 2 ^ 53 := by exact_mod_cast hgrid.small
  have hstep : ((a : ℚ) + 1) * 2 ^ c ≤ 2 ^ 53 * 2 ^ c := mul_le_mul_of_nonneg_right hsmall hunit.le
  have habove := h.above
  unfold size at habove
  rw [zpow_add₀ (by norm_num)]
  norm_num at hstep ⊢
  linarith

/-- Below a power of two, the units are half as large. -/
theorem RoundsTo.nearest_carry (h : RoundsTo q (2 ^ 52) c) (hc : c ≠ -1074)
    (hlt : q < 2 ^ (52 + c)) : Nearest (2 ^ 53) (q / 2 ^ (c - 1)) := by
  have hunit : (0 : ℚ) < 2 ^ (c - 1) := zpow_pos (by norm_num) _
  have hpow : (2 : ℚ) ^ c = 2 * 2 ^ (c - 1) := by
    rw [zpow_sub₀ (by norm_num)]
    ring
  have hbelow := h.below
  rw [halfBelow, if_pos ⟨rfl, hc⟩, size, hpow] at hbelow
  rw [zpow_add₀ (by norm_num), hpow] at hlt
  obtain ⟨t, rfl⟩ : ∃ t, q = t * 2 ^ (c - 1) := ⟨q / 2 ^ (c - 1), by field_simp⟩
  rw [mul_div_cancel_right₀ _ hunit.ne']
  have hlow : 2 * (2 ^ 53 : ℕ) - 1 ≤ 2 * t := by
    refine le_of_mul_le_mul_right ?_ hunit
    push_cast at hbelow ⊢
    linarith
  have hhigh : t < (2 ^ 53 : ℕ) := by
    refine lt_of_mul_lt_mul_right ?_ hunit.le
    push_cast
    norm_num at hlt ⊢
    linarith
  exact ⟨hlow, by linarith, fun _ => by norm_num⟩

/-- Only at a power of two does the interval reach below the leading bit. -/
theorem RoundsTo.eq_of_lt (h : RoundsTo q a c) (hgrid : OnGrid a c) (hc : c ≠ -1074)
    (hlt : q < 2 ^ (52 + c)) : a = 2 ^ 52 := by
  have hunit : (0 : ℚ) < 2 ^ c := zpow_pos (by norm_num) c
  have hnormal : 2 ^ 52 ≤ a := hgrid.normal.resolve_right hc
  by_contra hne
  have hnext : (2 : ℚ) ^ 52 + 1 ≤ a := by exact_mod_cast (by omega : 2 ^ 52 + 1 ≤ a)
  have hstep := mul_le_mul_of_nonneg_right hnext hunit.le
  have hbelow := h.below
  have hhalf := halfBelow_le a c
  rw [zpow_add₀ (by norm_num)] at hlt
  unfold size at hbelow
  norm_num at hstep hlt
  linarith

/-- Whatever lies in the interval of a double is rounded to it. -/
theorem RoundsTo.roundWithAccuracy_eq {m : ℕ} {e : ℤ} {acc : Accuracy} (hq : RoundsTo q a c)
    (hgrid : OnGrid a c) (ha : 0 < a) (h : Leads m e acc q) (s : Sign) :
    roundWithAccuracy .binary64 s m e acc = .finite s a c ha := by
  have hleast := hgrid.least
  have hhigh := hq.lt hgrid
  by_cases hlow : c = -1074 ∨ 2 ^ (52 + c) ≤ q
  · have hexp : gridExponent m e = c := by
      rcases hlow with rfl | hlow
      · exact h.gridExponent_eq_least hhigh
      · exact h.gridExponent_eq hleast hlow hhigh
    have hhalf : halfBelow a c = 2 ^ c / 2 ∨ size a c ≤ q := by
      by_cases hshort : a = 2 ^ 52 ∧ c ≠ -1074
      · refine .inr ?_
        rw [hshort.1, size_two_pow]
        exact_mod_cast hlow.resolve_left hshort.2
      · exact .inl (if_neg hshort)
    subst hexp
    exact h.round_onGrid s ha hgrid (hq.nearest hhalf)
  · -- The number lies below a power of two.
    rw [not_or, not_le] at hlow
    obtain rfl := hq.eq_of_lt hgrid hlow.1 hlow.2
    have hexp : gridExponent m e = c - 1 := by
      refine h.gridExponent_eq (by omega) ?_ ?_
      · have hunit : (0 : ℚ) < 2 ^ c := zpow_pos (by norm_num) c
        have hbelow := hq.below
        have hhalf := halfBelow_le (2 ^ 52) c
        have hpow : (2 : ℚ) ^ (52 + (c - 1)) = 2 ^ 51 * 2 ^ c := by
          rw [← zpow_natCast, ← zpow_add₀ (by norm_num)]
          congr 1
          omega
        rw [size] at hbelow
        rw [hpow]
        push_cast at hbelow
        norm_num at hbelow ⊢
        linarith
      · rw [(by omega : 53 + (c - 1) = 52 + c)]
        exact hlow.2
    have hcarry := h.round_carry s (hexp ▸ hq.nearest_carry hlow.1 hlow.2)
    rw [hcarry, hexp]
    congr 1
    omega

end RoundsTo

end Downhill.FloatGrid
