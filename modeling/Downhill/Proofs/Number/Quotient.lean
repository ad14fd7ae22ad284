import Mathlib
import Downhill.Proofs.Number.Reading
import Downhill.Proofs.Number.Squares

/-! # Quotients of doubles

Rounding does not lead past a point of the grid. So a positive double does not grow when it is
divided by a number above one, whatever is lost below the last bit.
-/

namespace Downhill

open Float.Model Float.Model.UnpackedFloat

namespace FloatGrid

/-! ## Bounds on what is rounded -/

section Measures

variable {em : ExtendedMantissa} {t : ℚ} {a : ℕ}

theorem Measures.rounded_le (h : Measures em t) (ha : t ≤ a) : em.roundedMantissa ≤ a := by
  have hhalves : halves em + em.stickyBit.toNat ≤ 2 * a := by
    unfold Measures at h
    split at h
    · rename_i hsticky
      have hlt : (halves em : ℚ) < 2 * a := by linarith
      rw [hsticky]
      exact_mod_cast hlt
    · rename_i hsticky
      have hle : (halves em : ℚ) ≤ 2 * a := by linarith
      rw [Bool.eq_false_of_not_eq_true hsticky]
      exact_mod_cast hle
  rcases em with ⟨n, _ | _, _ | _⟩ <;>
    simp [halves, ExtendedMantissa.roundedMantissa, ExtendedMantissa.accuracy,
      Accuracy.roundToNearestEven] at hhalves ⊢ <;>
    omega

theorem Measures.le_rounded (h : Measures em t) (ha : a ≤ t) : a ≤ em.roundedMantissa := by
  have hhalves : 2 * a < halves em + 1 := by
    have hlt : (2 * a : ℚ) < halves em + 1 := by
      unfold Measures at h
      split at h <;> linarith
    exact_mod_cast hlt
  rcases em with ⟨n, _ | _, _ | _⟩ <;>
    simp [halves, ExtendedMantissa.roundedMantissa, ExtendedMantissa.accuracy,
      Accuracy.roundToNearestEven] at hhalves ⊢ <;>
    omega

end Measures

section Leads

variable {m : ℕ} {e : ℤ} {acc : Accuracy} {q : ℚ}

/-- The grid of a number is fine enough for it, and no finer than need be. -/
theorem Leads.gridExponent_spec (h : Leads m e acc q) : q < 2 ^ (53 + gridExponent m e) ∧
    (gridExponent m e = -1074 ∨ 2 ^ (52 + gridExponent m e) ≤ q) := by
  have hbits : (m.log2 + 1 : ℕ) + e ≤ 53 + gridExponent m e := by
    unfold gridExponent
    push_cast
    omega
  constructor
  · calc q < size (m + 1) e := h.lt
      _ ≤ size (2 ^ (m.log2 + 1)) e := size_mono Nat.lt_log2_self e
      _ = 2 ^ ((m.log2 + 1 : ℕ) + e) := size_two_pow _ _
      _ ≤ 2 ^ (53 + gridExponent m e) := zpow_le_zpow_right₀ (by norm_num) hbits
  · by_cases hleast : gridExponent m e = -1074
    · exact .inl hleast
    · have hexp : 52 + gridExponent m e = m.log2 + e := by
        unfold gridExponent at hleast ⊢
        omega
      have hm : m ≠ 0 := by
        rintro rfl
        have hfine : e ≤ -1074 := h.fine.resolve_left (by norm_num)
        exact hleast (max_eq_right (by simp; omega))
      refine .inr ?_
      calc (2 : ℚ) ^ (52 + gridExponent m e) = size (2 ^ m.log2) e := by
            rw [size_two_pow, hexp]
        _ ≤ size m e := size_mono (Nat.log2_self_le hm) e
        _ ≤ q := h.le

/-- Rounding does not lead past a point of the grid. -/
theorem Leads.round_le (h : Leads m e acc q) (s : Sign) {a : ℕ} {c : ℤ} (hgrid : OnGrid a c)
    (hle : q ≤ size a c) :
    ∃ r g, OnGrid r g ∧ size r g ≤ size a c ∧ roundWithAccuracy .binary64 s m e acc =
      if h : r = 0 then .zero s else .finite s r g (Nat.pos_of_ne_zero h) := by
  obtain ⟨em, hshift, hem⟩ := h.shift
  obtain ⟨hhigh, hlow⟩ := h.gridExponent_spec
  have hleast : -1074 ≤ gridExponent m e := le_max_right _ _
  have hround : roundWithAccuracy .binary64 s m e acc =
      let last := shiftToTargetExponent .binary64 em.roundedMantissa (gridExponent m e) .exact
      if h : last.1.mantissa = 0 then .zero s
        else .finite s last.1.mantissa last.2 (Nat.pos_of_ne_zero h) := by
    unfold roundWithAccuracy
    rw [hshift]
  generalize gridExponent m e = g at *
  have hunit : (0 : ℚ) < 2 ^ g := zpow_pos (by norm_num) g
  -- The point of the grid is a multiple of the unit that the number is rounded to.
  have hcoarse : g ≤ c := by
    rcases hlow with rfl | hlow
    · exact hgrid.least
    · have hsize : size a c < 2 ^ (53 + c) := by
        rw [zpow_add₀ (by norm_num)]
        exact mul_lt_mul_of_pos_right (by exact_mod_cast hgrid.small) (zpow_pos (by norm_num) c)
      have hexp := (zpow_lt_zpow_iff_right₀ (by norm_num)).mp ((hlow.trans hle).trans_lt hsize)
      omega
  obtain ⟨k, rfl⟩ := Int.le.dest hcoarse
  have hmultiple : size a (g + k) = ((a * 2 ^ k : ℕ) : ℚ) * 2 ^ g := by
    rw [size, zpow_add₀ (by norm_num), zpow_natCast]
    push_cast
    ring
  have hrounded : em.roundedMantissa ≤ a * 2 ^ k := by
    refine hem.rounded_le ((div_le_iff₀ hunit).mpr ?_)
    rwa [← hmultiple]
  have hsize : em.roundedMantissa * 2 ^ g ≤ size a (g + k) := by
    rw [hmultiple]
    exact mul_le_mul_of_nonneg_right (by exact_mod_cast hrounded) hunit.le
  have hsmall : em.roundedMantissa ≤ 2 ^ 53 := by
    refine hem.rounded_le ((div_le_iff₀ hunit).mpr ?_)
    rw [zpow_add₀ (by norm_num)] at hhigh
    exact_mod_cast hhigh.le
  by_cases hcarry : em.roundedMantissa = 2 ^ 53
  · refine ⟨2 ^ 52, g + 1, ⟨by norm_num, by omega, .inl le_rfl⟩, ?_, ?_⟩
    · rw [hcarry] at hsize
      rw [size_two_pow]
      refine le_trans (le_of_eq ?_) hsize
      rw [zpow_add₀ (by norm_num), zpow_add₀ (by norm_num)]
      push_cast
      ring
    · rw [hround, hcarry, shiftToTargetExponent_carry hleast]
      rfl
  · have hnormal : 2 ^ 52 ≤ em.roundedMantissa ∨ g = -1074 := by
      refine hlow.symm.imp (fun hlow => hem.le_rounded ((le_div_iff₀ hunit).mpr ?_)) id
      rw [zpow_add₀ (by norm_num)] at hlow
      exact_mod_cast hlow
    have hpoint : OnGrid em.roundedMantissa g :=
      ⟨lt_of_le_of_ne hsmall hcarry, hleast, hnormal⟩
    refine ⟨_, _, hpoint, hsize, ?_⟩
    rw [hround, shiftToTargetExponent_of_onGrid hpoint]
    rfl

end Leads

/-! ## Bounds on rounded doubles -/

/-- The double is zero, or a positive number of at most this size. -/
def AtMost (x : Float) (q : ℚ) : Prop := x = 0.0 ∨ ∃ m e, Holds x m e ∧ size m e ≤ q

section AtMost

variable {x y : Float} {m n : ℕ} {e f : ℤ} {q : ℚ}

theorem AtMost.nonneg (h : AtMost x q) : 0.0 ≤ x := by
  rcases h with rfl | ⟨m, e, hholds, -⟩
  · decide +kernel
  · exact Scalar.Ordered.le_of_lt ((zero_lt_iff x).mpr (.inr ⟨m, e, hholds⟩))

theorem AtMost.le (h : AtMost x (size n f)) (h' : Holds y n f) : x ≤ y := by
  rcases h with rfl | ⟨m, e, hholds, hle⟩
  · exact Scalar.Ordered.le_of_lt ((zero_lt_iff y).mpr (.inr ⟨n, f, h'⟩))
  · exact (hholds.le_iff h').mpr hle

/-- A double is bounded by the points of the grid that bound the number it comes from. -/
theorem Leads.atMost {acc : Accuracy} (h : Leads m e acc q)
    (hunpack : x.toModel.unpack =
      (Float.Model.pack (roundWithAccuracy .binary64 .positive m e acc)).unpack)
    (hgrid : OnGrid n f) (hfinite : f ≤ 971) (hle : q ≤ size n f) : AtMost x (size n f) := by
  obtain ⟨r, g, hpoint, hsize, hround⟩ := h.round_le .positive hgrid hle
  rw [hround] at hunpack
  split at hunpack
  · exact .inl (eq_of_unpack hunpack)
  · rename_i hr
    have hexponent : g ≤ 971 := by
      by_contra hlarge
      have hlt : f < g := hfinite.trans_lt (not_le.mp hlarge)
      exact absurd (hgrid.size_lt_of_lt hpoint hlt) (not_lt.mpr hsize)
    rw [unpack_pack_of_onGrid hpoint, if_pos hexponent] at hunpack
    exact .inr ⟨r, g, ⟨Nat.pos_of_ne_zero hr, hunpack⟩, hsize⟩

end AtMost

/-! ## Quotients -/

variable {x y : Float} {m n : ℕ} {e f : ℤ}

theorem Holds.div_le (h : Holds x m e) (h' : Holds y n f) (hone : 1.0 < y) : x / y ≤ x := by
  have hfactor : (1 : ℚ) ≤ size n f := by
    have hunit : (0 : ℚ) < 2 ^ (-52 : ℤ) := zpow_pos (by norm_num) _
    linarith [(h'.one_add_le hone).2]
  have hquotient : size m e / size n f ≤ size m e := div_le_self h.size_pos.le hfactor
  obtain ⟨hm, hx⟩ := id h
  obtain ⟨hn, hy⟩ := id h'
  refine AtMost.le ((leads_quotient hm hn).atMost ?_ h.onGrid h.exponent_le hquotient) h
  rw [unpack_div, hx, hy]
  rfl

theorem Exceeds.div (h : Exceeds x) (h' : Holds y n f) : Exceeds (x / y) := by
  obtain ⟨_, hy⟩ := h'
  rw [Exceeds, unpack_div, h, hy]
  exact unpack_pack_infinity .positive

end FloatGrid

/-! ## Factors above one -/

namespace FloatOrder

open FloatGrid

theorem beq_self {x y : Float} (h : x ≤ y ∨ y ≤ x) : (x == x) = true := by
  obtain ⟨k, hk, -⟩ := (le_iff x x).mp (le_self h)
  exact (beq_iff x x).mpr ⟨k, hk, hk⟩

/-- A quotient by a number above one is not larger. -/
theorem div_le {x y : Float} (hx : 0.0 < x) (hy : 1.0 < y) (hfinite : y.isFinite = true) :
    x / y ≤ x := by
  rcases cases_of_one_lt hy with hexceeds | ⟨n, f, hfactor⟩
  · rw [isFinite_eq_unpack, hexceeds] at hfinite
    contradiction
  · rcases (zero_lt_iff x).mp hx with hexceeds | ⟨m, e, hholds⟩
    · rw [le_iff, (hexceeds.div hfactor).standing_eq, hexceeds.standing_eq]
      exact ⟨_, rfl, _, rfl, le_rfl⟩
    · exact hholds.div_le hfactor hy

end FloatOrder

/-- Scalars that compare with others are ordered like numbers, and a factor above one takes positive
ones up and down. -/
class Scalar.Scaling (α : Type) [Scalar α] : Prop extends Scalar.Ordered α, Scalar.Growing α where
  beq_self {a b : α} : a ≤ b ∨ b ≤ a → (a == a) = true
  le_of_not_lt {a b : α} : a ≤ a → b ≤ b → ¬ a < b → b ≤ a
  lt_of_lt_of_le {a b c : α} : a < b → b ≤ c → a < c
  le_mul {a g : α} : (0.0 : α) < a → (1.0 : α) < g → a ≤ a * g
  div_le {a g : α} : (0.0 : α) < a → (1.0 : α) < g → Scalar.isFinite g = true → a / g ≤ a

instance : Scalar.Scaling Float where
  beq_self := FloatOrder.beq_self
  le_of_not_lt := FloatOrder.le_of_not_lt
  lt_of_lt_of_le := FloatOrder.lt_of_lt_le
  le_mul := FloatOrder.le_mul
  div_le := FloatOrder.div_le

namespace Scalar

variable {α : Type} [Scalar α] [Scalar.Scaling α] {a b c : α}

theorem Scaling.le_self (h : a ≤ b ∨ b ≤ a) : a ≤ a := Ordered.le_of_beq (beq_self h)

theorem le_larger_left (ha : a ≤ a) : a ≤ larger a b := by
  unfold larger
  split
  · exact Ordered.le_of_lt ‹a < b›
  · rwa [if_pos (Scaling.beq_self (.inl ha))]

theorem le_larger_right (hb : b ≤ b) : b ≤ larger a b := by
  unfold larger
  split
  · exact hb
  · rename_i hlarge
    split
    · rename_i hnumber
      exact Scaling.le_of_not_lt (Ordered.le_of_beq hnumber) hb hlarge
    · exact hb

omit [Scalar.Scaling α] in
theorem larger_le (ha : a ≤ c) (hb : b ≤ c) : larger a b ≤ c := by
  unfold larger
  split
  · exact hb
  · split
    · exact ha
    · exact hb

end Scalar

end Downhill
