import Mathlib
import Downhill.Proofs.Number.Shrinking

/-! # Doubles of either sign

A finite double stands for a number, and the sum, the difference or the product of two of them
becomes the closest point of the grid. So what is larger before an operation is not smaller after
it.
-/

namespace Downhill.FloatGrid

open Float.Model Float.Model.UnpackedFloat FloatOrder

/-! ## Points -/

/-- The factor that a sign stands for. -/
def factor : Sign → ℚ
  | .positive => 1
  | .negative => -1

theorem factor_mul (s t : Sign) : factor (s * t) = factor s * factor t := by
  cases s <;> cases t
  · exact (by norm_num : (1 : ℚ) = -1 * -1)
  · exact (mul_one _).symm
  · exact (one_mul _).symm
  · exact (one_mul _).symm

theorem factor_neg (s : Sign) : factor (-s) = -factor s := by
  cases s with
  | negative => exact (neg_neg 1).symm
  | positive => rfl

theorem abs_factor_mul (s : Sign) (q : ℚ) : |factor s * q| = |q| := by
  cases s <;> simp [factor]

/-- A point of the grid on either side of zero. -/
def IsPoint (p : ℚ) : Prop := ∃ m e, OnGrid m e ∧ |p| = size m e

theorem size_nonneg (m : ℕ) (e : ℤ) : 0 ≤ size m e :=
  mul_nonneg (Nat.cast_nonneg m) (zpow_pos (by norm_num) e).le

theorem OnGrid.isPoint {m : ℕ} {e : ℤ} (h : OnGrid m e) (s : Sign) :
    IsPoint (factor s * size m e) :=
  ⟨m, e, h, by rw [abs_factor_mul, abs_of_nonneg (size_nonneg m e)]⟩

theorem isPoint_zero : IsPoint 0 := ⟨0, -1074, ⟨by norm_num, le_rfl, .inr rfl⟩, by simp [size]⟩

/-- No point is closer to the number. -/
structure Closest (p q : ℚ) : Prop where
  isPoint : IsPoint p
  closest : ∀ r, IsPoint r → |p - q| ≤ |r - q|

section Closest

variable {p q p' q' r : ℚ}

theorem closest_self (h : IsPoint p) : Closest p p :=
  ⟨h, fun r _ => by simp⟩

theorem Closest.eq (h : Closest p q) (hq : IsPoint q) : p = q := by
  have hle := h.closest q hq
  rw [sub_self, abs_zero] at hle
  exact sub_eq_zero.mp (abs_nonpos_iff.mp hle)

/-- What the larger one of two points is not farther from lies above their middle. -/
theorem add_le_of_abs_le (hlt : p' < p) (hle : |p - q| ≤ |p' - q|) : p + p' ≤ 2 * q := by
  rcases abs_cases (p - q) with ⟨habs, _⟩ | ⟨habs, _⟩ <;>
    rcases abs_cases (p' - q) with ⟨habs', _⟩ | ⟨habs', _⟩ <;> linarith

theorem le_add_of_abs_le (hlt : p < p') (hle : |p - q| ≤ |p' - q|) : 2 * q ≤ p + p' := by
  rcases abs_cases (p - q) with ⟨habs, _⟩ | ⟨habs, _⟩ <;>
    rcases abs_cases (p' - q) with ⟨habs', _⟩ | ⟨habs', _⟩ <;> linarith

/-- Larger numbers have larger closest points. -/
theorem Closest.mono (h : Closest p q) (h' : Closest p' q') (hlt : q < q') : p ≤ p' := by
  by_contra hgt
  rw [not_le] at hgt
  have hbelow := add_le_of_abs_le hgt (h.closest p' h'.isPoint)
  have habove := le_add_of_abs_le hgt (h'.closest p h.isPoint)
  linarith

theorem Closest.le (h : Closest p q) (hr : IsPoint r) (hle : q ≤ r) : p ≤ r := by
  rcases hle.lt_or_eq with hlt | rfl
  · exact h.mono (closest_self hr) hlt
  · exact (h.eq hr).le

theorem Closest.ge (h : Closest p q) (hr : IsPoint r) (hle : r ≤ q) : r ≤ p := by
  rcases hle.lt_or_eq with hlt | rfl
  · exact (closest_self hr).mono h hlt
  · exact (h.eq hr).ge

/-- What is closest among the sizes is closest on its side of zero. -/
theorem closest_factor_mul (s : Sign) {m : ℕ} {e : ℤ} (hgrid : OnGrid m e) (hq : 0 ≤ q)
    (h : ∀ a c, OnGrid a c → |size m e - q| ≤ |size a c - q|) :
    Closest (factor s * size m e) (factor s * q) := by
  refine ⟨hgrid.isPoint s, ?_⟩
  rintro r ⟨a, c, hgrid', hr⟩
  calc |factor s * size m e - factor s * q|
      = |size m e - q| := by rw [← mul_sub, abs_factor_mul]
    _ ≤ |size a c - q| := h a c hgrid'
    _ = |(|r| - |factor s * q|)| := by rw [hr, abs_factor_mul, abs_of_nonneg hq]
    _ ≤ |r - factor s * q| := abs_abs_sub_abs_le r _

end Closest

/-! ## Finite doubles -/

/-- The power of two that is too large for a finite double. -/
def limit : ℚ := 2 ^ (1024 : ℤ)

theorem limit_pos : 0 < limit := zpow_pos (by norm_num) _

/-- The double is this number; a zero of either sign is zero. -/
inductive Denotes (x : Float) : ℚ → Prop where
  | zero {s : Sign} : x.toModel.unpack = .zero s → Denotes x 0
  | finite {s : Sign} {m : ℕ} {e : ℤ} {hm : 0 < m} : x.toModel.unpack = .finite s m e hm →
      Denotes x (factor s * size m e)

section Denotes

variable {x y : Float} {p q : ℚ}

theorem Holds.denotes {m : ℕ} {e : ℤ} (h : Holds x m e) : Denotes x (size m e) := by
  obtain ⟨_, hunpack⟩ := h
  simpa [factor] using Denotes.finite hunpack

theorem denotes_zero : Denotes 0.0 0 := .zero rfl

theorem exists_denotes (h : x.isFinite = true) : ∃ p, Denotes x p := by
  rw [isFinite_eq_unpack] at h
  cases hunpack : x.toModel.unpack with
  | notANumber =>
      rw [hunpack] at h
      cases h
  | infinity s =>
      rw [hunpack] at h
      cases h
  | zero s => exact ⟨0, .zero hunpack⟩
  | finite s m e hm => exact ⟨_, .finite hunpack⟩

theorem Denotes.isPoint (h : Denotes x p) : IsPoint p := by
  cases h with
  | zero => exact isPoint_zero
  | finite hunpack => exact (onGrid_of_unpack hunpack).1.isPoint _

theorem Upward.exists_denotes (h : Upward x) (hfinite : x.isFinite = true) :
    ∃ p, Denotes x p ∧ 0 ≤ p := by
  obtain ⟨p, hp⟩ := FloatGrid.exists_denotes hfinite
  refine ⟨p, hp, ?_⟩
  cases hp with
  | zero => exact le_rfl
  | @finite s m e hm hunpack =>
      rw [Upward, hunpack] at h
      obtain rfl : s = .positive := h
      simpa [factor] using size_nonneg m e

theorem Denotes.abs_lt (h : Denotes x p) : |p| < limit := by
  cases h with
  | zero => simpa using limit_pos
  | finite hunpack =>
      obtain ⟨hgrid, hexponent⟩ := onGrid_of_unpack hunpack
      rw [abs_factor_mul, abs_of_nonneg (size_nonneg _ _)]
      exact hgrid.size_lt hexponent

theorem standing_of_zero {s : Sign} (h : x.toModel.unpack = .zero s) :
    standing x = some (toLex (0, toLex (0, 0))) := by
  rw [standing, h]
  rfl

theorem standing_of_negative {m : ℕ} {e : ℤ} {hm : 0 < m}
    (h : x.toModel.unpack = .finite .negative m e hm) :
    standing x = some (toLex (-1, toLex (-e, -(m : ℤ)))) := by
  rw [standing, h]
  rfl

theorem lt_iff_of_standing {k l : ℤ ×ₗ ℤ ×ₗ ℤ} (hx : standing x = some k)
    (hy : standing y = some l) : x < y ↔ k < l := by
  rw [FloatOrder.lt_iff, hx, hy]
  simp

/-- Finite doubles compare as their numbers do. -/
theorem Denotes.lt_iff (h : Denotes x p) (h' : Denotes y q) : x < y ↔ p < q := by
  -- Numbers on different sides of zero are told apart by the first part of their standing.
  rcases h with hx | @⟨_ | _, m, e, hm, hx⟩ <;> rcases h' with hy | @⟨_ | _, n, f, hn, hy⟩
  case zero.zero =>
    rw [lt_iff_of_standing (standing_of_zero hx) (standing_of_zero hy)]
    simp
  case zero.finite.negative =>
    rw [lt_iff_of_standing (standing_of_zero hx) (standing_of_negative hy)]
    refine iff_of_false (by simp [Prod.Lex.toLex_lt_toLex]) ?_
    simpa [factor] using (size_pos hn f).le
  case zero.finite.positive =>
    rw [lt_iff_of_standing (standing_of_zero hx) (Holds.standing_eq ⟨hn, hy⟩)]
    refine iff_of_true (by simp [Prod.Lex.toLex_lt_toLex]) ?_
    simpa [factor] using size_pos hn f
  case finite.negative.zero =>
    rw [lt_iff_of_standing (standing_of_negative hx) (standing_of_zero hy)]
    refine iff_of_true (by simp [Prod.Lex.toLex_lt_toLex]) ?_
    simpa [factor] using size_pos hm e
  case finite.negative.finite.negative =>
    have hiff := (onGrid_of_unpack hy).1.size_lt_iff (onGrid_of_unpack hx).1
    rw [lt_iff_of_standing (standing_of_negative hx) (standing_of_negative hy)]
    simp [factor, hiff, Prod.Lex.toLex_lt_toLex]
    omega
  case finite.negative.finite.positive =>
    rw [lt_iff_of_standing (standing_of_negative hx) (Holds.standing_eq ⟨hn, hy⟩)]
    refine iff_of_true (by simp [Prod.Lex.toLex_lt_toLex]) ?_
    simp only [factor]
    linarith [size_pos hm e, size_pos hn f]
  case finite.positive.zero =>
    rw [lt_iff_of_standing (Holds.standing_eq ⟨hm, hx⟩) (standing_of_zero hy)]
    refine iff_of_false (by simp [Prod.Lex.toLex_lt_toLex]) ?_
    simpa [factor] using (size_pos hm e).le
  case finite.positive.finite.negative =>
    rw [lt_iff_of_standing (Holds.standing_eq ⟨hm, hx⟩) (standing_of_negative hy)]
    refine iff_of_false (by simp [Prod.Lex.toLex_lt_toLex]) ?_
    simp only [factor]
    linarith [size_pos hm e, size_pos hn f]
  case finite.positive.finite.positive =>
    have hx' : Holds x m e := ⟨hm, hx⟩
    rw [hx'.lt_iff ⟨hn, hy⟩]
    simp only [factor, one_mul]

/-- Finite doubles stand between the infinities. -/
theorem Denotes.exists_standing (h : Denotes x p) :
    ∃ a b, standing x = some (toLex (a, b)) ∧ -2 < a ∧ a < 2 := by
  rcases h with hx | @⟨_ | _, m, e, hm, hx⟩
  · exact ⟨_, _, standing_of_zero hx, by norm_num, by norm_num⟩
  · exact ⟨_, _, standing_of_negative hx, by norm_num, by norm_num⟩
  · exact ⟨_, _, Holds.standing_eq ⟨hm, hx⟩, by norm_num, by norm_num⟩

theorem Denotes.le_self (h : Denotes x p) : x ≤ x := by
  obtain ⟨a, b, hstanding, -⟩ := h.exists_standing
  exact (FloatOrder.le_iff x x).mpr ⟨_, hstanding, _, hstanding, le_rfl⟩

theorem Denotes.le_iff (h : Denotes x p) (h' : Denotes y q) : x ≤ y ↔ p ≤ q := by
  constructor
  · intro hle
    refine not_lt.mp fun hlt => ?_
    have hlt' : y < y := lt_of_lt_le ((h'.lt_iff h).mpr hlt) hle
    exact Scalar.Ordered.lt_irrefl y hlt'
  · intro hle
    exact le_of_not_lt h'.le_self h.le_self fun hlt => not_lt.mpr hle ((h'.lt_iff h).mp hlt)

theorem factor_injective {s t : Sign} (h : factor s = factor t) : s = t := by
  cases s <;> cases t <;> first | rfl | norm_num [factor] at h

/-- Only zero has two doubles. -/
theorem Denotes.eq_or_zero (h : Denotes x p) (h' : Denotes y p) : x = y ∨ p = 0 := by
  rcases h with hx | @⟨s, m, e, hm, hx⟩
  · exact .inr rfl
  · generalize hp : factor s * size m e = p at h' ⊢
    rcases h' with hy | @⟨t, n, f, hn, hy⟩
    · exact .inr rfl
    · have hsize : size m e = size n f := by
        rw [← abs_of_nonneg (size_nonneg m e), ← abs_factor_mul s, hp, abs_factor_mul,
          abs_of_nonneg (size_nonneg n f)]
      rw [hsize] at hp
      obtain rfl := factor_injective (mul_right_cancel₀ (size_pos hn f).ne' hp)
      obtain ⟨rfl, rfl⟩ :=
        (onGrid_of_unpack hx).1.eq_of_size_eq (onGrid_of_unpack hy).1 hsize
      exact .inl (eq_of_unpack (hx.trans hy.symm))

end Denotes

/-! ## Rounded numbers -/

/-- The double is this point, or the infinity in whose place it would be. -/
inductive Stands (x : Float) (p : ℚ) : Prop where
  | denotes : Denotes x p → Stands x p
  | infinite {s : Sign} : x.toModel.unpack = .infinity s → limit ≤ factor s * p →
      Stands x p

/-- The number is rounded to the double. -/
def Becomes (q : ℚ) (x : Float) : Prop := ∃ p, Closest p q ∧ Stands x p

section Becomes

variable {x y : Float} {p q q' r : ℚ}

theorem standing_of_infinity {s : Sign} (h : x.toModel.unpack = .infinity s) :
    standing x = some (toLex (2 * (s.apply 1), toLex (0, 0))) := by
  rw [standing, h]
  cases s <;> rfl

theorem Stands.abs_lt_iff (h : Stands x p) : |p| < limit ↔ Denotes x p := by
  refine ⟨fun hlt => ?_, Denotes.abs_lt⟩
  cases h with
  | denotes hdenotes => exact hdenotes
  | @infinite s hunpack hlarge =>
      have hle : factor s * p ≤ |p| := (le_abs_self _).trans_eq (abs_factor_mul s p)
      linarith

theorem Stands.le (h : Stands x p) (h' : Stands y q) (hle : p ≤ q) : x ≤ y := by
  cases h with
  | denotes hx =>
      cases h' with
      | denotes hy => exact (hx.le_iff hy).mpr hle
      | @infinite t hy ht =>
          obtain ⟨a, b, hstanding, -, hlt⟩ := hx.exists_standing
          refine (FloatOrder.le_iff x y).mpr ⟨_, hstanding, _, standing_of_infinity hy, ?_⟩
          cases t with
          | negative =>
              simp only [factor] at ht
              linarith [neg_abs_le p, hx.abs_lt]
          | positive => exact Prod.Lex.toLex_le_toLex.mpr (.inl hlt)
  | @infinite s hx hs =>
      cases h' with
      | denotes hy =>
          obtain ⟨a, b, hstanding, hlt, -⟩ := hy.exists_standing
          refine (FloatOrder.le_iff x y).mpr ⟨_, standing_of_infinity hx, _, hstanding, ?_⟩
          cases s with
          | negative => exact Prod.Lex.toLex_le_toLex.mpr (.inl hlt)
          | positive =>
              simp only [factor] at hs
              linarith [le_abs_self q, hy.abs_lt]
      | @infinite t hy ht =>
          refine (FloatOrder.le_iff x y).mpr
            ⟨_, standing_of_infinity hx, _, standing_of_infinity hy, ?_⟩
          have hpos : 0 < limit := limit_pos
          cases s <;> cases t
          case positive.negative =>
            simp only [factor] at hs ht
            linarith
          case negative.positive => exact Prod.Lex.toLex_le_toLex.mpr (.inl (by decide))
          all_goals exact le_rfl

theorem Denotes.becomes (h : Denotes x p) : Becomes p x := ⟨p, closest_self h.isPoint, .denotes h⟩

/-- Rounding keeps the order. -/
theorem Becomes.mono (h : Becomes q x) (h' : Becomes q' y) (hlt : q < q') : x ≤ y := by
  obtain ⟨p, hclosest, hstands⟩ := h
  obtain ⟨p', hclosest', hstands'⟩ := h'
  exact hstands.le hstands' (hclosest.mono hclosest' hlt)

theorem Becomes.ge (h : Becomes q x) (hy : Denotes y r) (hle : r ≤ q) : y ≤ x := by
  obtain ⟨p, hclosest, hstands⟩ := h
  exact Stands.le (.denotes hy) hstands (hclosest.ge hy.isPoint hle)

theorem Becomes.le_self (h : Becomes q x) : x ≤ x := by
  obtain ⟨p, -, hstands⟩ := h
  exact hstands.le hstands le_rfl

/-- A point is not rounded. -/
theorem Becomes.denotes (h : Becomes q x) (hq : IsPoint q) (hlt : |q| < limit) :
    Denotes x q := by
  obtain ⟨p, hclosest, hstands⟩ := h
  obtain rfl := hclosest.eq hq
  exact hstands.abs_lt_iff.mp hlt

/-- What lies between zero and a double becomes one there. -/
theorem Becomes.exists_denotes (h : Becomes q x) (hy : Denotes y r) (hnonneg : 0 ≤ q)
    (hle : q ≤ r) : ∃ p, Denotes x p ∧ 0 ≤ p ∧ p ≤ r := by
  obtain ⟨p, hclosest, hstands⟩ := h
  have hlow : 0 ≤ p := hclosest.ge isPoint_zero hnonneg
  have hhigh : p ≤ r := hclosest.le hy.isPoint hle
  have hlt : |p| < limit := by
    rw [abs_of_nonneg hlow]
    linarith [le_abs_self r, hy.abs_lt]
  exact ⟨p, hstands.abs_lt_iff.mp hlt, hlow, hhigh⟩

end Becomes

/-! ## Operations -/

section Operations

variable {x y z : Float} {p q r : ℚ}

theorem unpack_pack_zero (s : Sign) : (Float.Model.pack (.zero s)).unpack = .zero s := by
  cases s <;> rfl

theorem OnGrid.limit_le {m : ℕ} {e : ℤ} (h : OnGrid m e) (he : 971 < e) : limit ≤ size m e := by
  have hlong : (2 : ℚ) ^ 52 ≤ m := by exact_mod_cast h.normal.resolve_right (by omega)
  calc limit = 2 ^ 52 * 2 ^ (972 : ℤ) := by
        rw [limit, ← zpow_natCast, ← zpow_add₀ (by norm_num)]; norm_num
    _ ≤ 2 ^ 52 * 2 ^ e := by gcongr <;> [norm_num; exact he]
    _ ≤ size m e := mul_le_mul_of_nonneg_right hlong (zpow_pos (by norm_num) e).le

/-- A number whose mantissa is long enough is rounded. -/
theorem becomes_round {s : Sign} {m : ℕ} {e : ℤ} (hm : 0 < m) (hfine : Fine m e)
    (hunpack : x.toModel.unpack =
      (Float.Model.pack (roundWithAccuracy .binary64 s m e .exact)).unpack) :
    Becomes (factor s * size m e) x := by
  obtain ⟨r, g, hgrid, hnearest, hround⟩ := exists_nearest s hm hfine
  refine ⟨factor s * size r g, closest_factor_mul s hgrid (size_nonneg m e) hnearest, ?_⟩
  rw [hround] at hunpack
  by_cases hr : r = 0
  · rw [dif_pos hr, unpack_pack_zero] at hunpack
    have hzero : factor s * size r g = 0 := by simp [hr, size]
    exact hzero ▸ .denotes (.zero hunpack)
  · rw [dif_neg hr, unpack_pack_of_onGrid hgrid] at hunpack
    split at hunpack
    · exact .denotes (.finite hunpack)
    · refine .infinite hunpack ?_
      have hself : factor s * (factor s * size r g) = size r g := by cases s <;> simp [factor]
      rw [hself]
      exact hgrid.limit_le (by omega)

theorem size_shiftLeft (m k : ℕ) (e : ℤ) : size (m <<< k) (e - k) = size m e := by
  rw [size, size, Nat.shiftLeft_eq, zpow_sub₀ (by norm_num), zpow_natCast]
  push_cast
  field_simp

/-- A number whose mantissa is too short is written with a longer one. -/
theorem fine_shiftLeft {m : ℕ} (hm : 0 < m) (e : ℤ) :
    Fine (m <<< (e - gridExponent m e).toNat) (e - (e - gridExponent m e).toNat) := by
  have hlog : 2 ^ m.log2 ≤ m := Nat.log2_self_le hm.ne'
  by_cases hleast : e - (e - gridExponent m e).toNat ≤ -1074
  · exact .inr hleast
  · have hbits : 52 ≤ m.log2 + (e - gridExponent m e).toNat := by
      unfold gridExponent at hleast ⊢
      omega
    refine .inl ?_
    rw [Nat.shiftLeft_eq]
    calc 2 ^ 52 ≤ 2 ^ (m.log2 + (e - gridExponent m e).toNat) :=
          Nat.pow_le_pow_right (by norm_num) hbits
      _ = 2 ^ m.log2 * 2 ^ (e - gridExponent m e).toNat := pow_add ..
      _ ≤ m * 2 ^ (e - gridExponent m e).toNat := Nat.mul_le_mul_right _ hlog

theorem becomes_round_short {s : Sign} {m : ℕ} {e : ℤ} (hm : 0 < m) (hunpack : x.toModel.unpack =
    (Float.Model.pack (UnpackedFloat.round .binary64 s m e)).unpack) :
    Becomes (factor s * size m e) x := by
  rw [UnpackedFloat.round, targetExponent_eq] at hunpack
  rw [← size_shiftLeft m (e - gridExponent m e).toNat e]
  exact becomes_round (Nat.shiftLeft_eq m _ ▸ by positivity) (fine_shiftLeft hm e) hunpack

theorem becomes_normalize {m e : ℤ} (hunpack : x.toModel.unpack =
    (Float.Model.pack (UnpackedFloat.normalize .binary64 m e .positive)).unpack) :
    Becomes (m * 2 ^ e) x := by
  unfold UnpackedFloat.normalize at hunpack
  rcases lt_trichotomy m 0 with hneg | rfl | hpos
  · rw [compare_lt_iff_lt.mpr hneg] at hunpack
    have hcast : (((-m).toNat : ℤ) : ℚ) = -m := by
      rw [Int.toNat_of_nonneg (by omega), Int.cast_neg]
    have hx := becomes_round_short (by omega) hunpack
    rwa [size, ← Int.cast_natCast, hcast, factor, neg_one_mul, neg_mul, neg_neg] at hx
  · rw [compare_eq_iff_eq.mpr rfl] at hunpack
    simpa using (Denotes.zero (hunpack.trans (unpack_pack_zero _))).becomes
  · rw [compare_gt_iff_gt.mpr hpos] at hunpack
    have hcast : ((m.toNat : ℤ) : ℚ) = m := by rw [Int.toNat_of_nonneg hpos.le]
    have hx := becomes_round_short (by omega) hunpack
    rwa [size, ← Int.cast_natCast, hcast, factor, one_mul] at hx

/-- A mantissa is written for a smaller exponent. -/
theorem apply_shiftLeft (s : Sign) (m : ℕ) {e t : ℤ} (h : t ≤ e) :
    (s.apply (m <<< (e - t).toNat : ℕ) : ℚ) * 2 ^ t = factor s * size m e := by
  have hshift : e - (e - t).toNat = t := by omega
  have hsize := size_shiftLeft m (e - t).toNat e
  rw [hshift] at hsize
  rw [← hsize, size, ← mul_assoc]
  cases s <;> simp only [Sign.apply, factor, Int.cast_neg, Int.cast_natCast, neg_mul, one_mul]

/-- The parts of a double are not changed by packing, whatever the sign. -/
theorem unpack_pack_of_unpack {s : Sign} {m : ℕ} {e : ℤ} {hm : 0 < m}
    (h : x.toModel.unpack = .finite s m e hm) (t : Sign) :
    (Float.Model.pack (.finite t m e hm)).unpack = .finite t m e hm := by
  rw [unpack_pack_of_onGrid (onGrid_of_unpack h).1, if_pos (onGrid_of_unpack h).2]

theorem Denotes.add (h : Denotes x p) (h' : Denotes y q) : Becomes (p + q) (x + y) := by
  have hsum := unpack_add x y
  cases h with
  | @zero s hx =>
      cases h' with
      | @zero t hy =>
          have hzero : ∃ r, UnpackedFloat.add .binary64 (.zero s) (.zero t) = .zero r := by
            cases s <;> cases t <;> exact ⟨_, rfl⟩
          obtain ⟨r, hr⟩ := hzero
          rw [hx, hy, hr, unpack_pack_zero] at hsum
          rw [add_zero]
          exact (Denotes.zero hsum).becomes
      | @finite t n f hn hy =>
          rw [hx, hy] at hsum
          rw [zero_add]
          exact (Denotes.finite (hsum.trans (unpack_pack_of_unpack hy t))).becomes
  | @finite s m e hm hx =>
      cases h' with
      | @zero t hy =>
          rw [hx, hy] at hsum
          rw [add_zero]
          exact (Denotes.finite (hsum.trans (unpack_pack_of_unpack hx s))).becomes
      | @finite t n f hn hy =>
          rw [hx, hy] at hsum
          have hexact := becomes_normalize hsum
          rwa [Int.cast_add, add_mul, apply_shiftLeft s m (min_le_left e f),
            apply_shiftLeft t n (min_le_right e f)] at hexact

theorem unpack_sub (x y : Float) : (x - y).toModel.unpack =
    (Float.Model.pack (UnpackedFloat.sub .binary64 x.toModel.unpack y.toModel.unpack)).unpack := rfl

theorem Denotes.sub (h : Denotes x p) (h' : Denotes y q) : Becomes (p - q) (x - y) := by
  have hdifference := unpack_sub x y
  cases h with
  | @zero s hx =>
      cases h' with
      | @zero t hy =>
          have hzero : ∃ r, UnpackedFloat.sub .binary64 (.zero s) (.zero t) = .zero r := by
            cases s <;> cases t <;> exact ⟨_, rfl⟩
          obtain ⟨r, hr⟩ := hzero
          rw [hx, hy, hr, unpack_pack_zero] at hdifference
          rw [sub_zero]
          exact (Denotes.zero hdifference).becomes
      | @finite t n f hn hy =>
          rw [hx, hy] at hdifference
          rw [zero_sub, ← neg_mul, ← factor_neg]
          exact (Denotes.finite (hdifference.trans (unpack_pack_of_unpack hy (-t)))).becomes
  | @finite s m e hm hx =>
      cases h' with
      | @zero t hy =>
          rw [hx, hy] at hdifference
          rw [sub_zero]
          exact (Denotes.finite (hdifference.trans (unpack_pack_of_unpack hx s))).becomes
      | @finite t n f hn hy =>
          rw [hx, hy] at hdifference
          have hexact := becomes_normalize hdifference
          rwa [Int.cast_sub, sub_mul, apply_shiftLeft s m (min_le_left e f),
            apply_shiftLeft t n (min_le_right e f)] at hexact

theorem Denotes.mul (h : Denotes x p) (h' : Denotes y q) : Becomes (p * q) (x * y) := by
  have hproduct := unpack_mul x y
  cases h with
  | @zero s hx =>
      rw [zero_mul]
      cases h' with
      | @zero t hy =>
          rw [hx, hy] at hproduct
          exact (Denotes.zero (hproduct.trans (unpack_pack_zero _))).becomes
      | @finite t n f hn hy =>
          rw [hx, hy] at hproduct
          exact (Denotes.zero (hproduct.trans (unpack_pack_zero _))).becomes
  | @finite s m e hm hx =>
      cases h' with
      | @zero t hy =>
          rw [hx, hy] at hproduct
          rw [mul_zero]
          exact (Denotes.zero (hproduct.trans (unpack_pack_zero _))).becomes
      | @finite t n f hn hy =>
          rw [hx, hy] at hproduct
          have hfine : Fine (m * n) (e + f) :=
            (onGrid_of_unpack hx).1.fine_mul (onGrid_of_unpack hy).1 hm hn
          have hexact := becomes_round (Nat.mul_pos hm hn) hfine hproduct
          rwa [size_mul, factor_mul, mul_mul_mul_comm] at hexact

/-! ## Order -/

theorem Denotes.add_le_add (hx : Denotes x p) (hy : Denotes y q) (hz : Denotes z r)
    (hle : x ≤ y) : x + z ≤ y + z := by
  rcases ((hx.le_iff hy).mp hle).lt_or_eq with hlt | rfl
  · exact (hx.add hz).mono (hy.add hz) (by linarith)
  · rcases hx.eq_or_zero hy with rfl | rfl
    · exact (hx.add hz).le_self
    · -- Added to a zero of either sign, a number stays what it is.
      have hleft := hx.add hz
      have hright := hy.add hz
      rw [zero_add] at hleft hright
      exact ((hleft.denotes hz.isPoint hz.abs_lt).le_iff
        (hright.denotes hz.isPoint hz.abs_lt)).mpr le_rfl

theorem Becomes.denotes_zero (h : Becomes 0 x) : Denotes x 0 :=
  h.denotes isPoint_zero (by simpa using limit_pos)

theorem Denotes.mul_le_mul (hx : Denotes x p) (hy : Denotes y q) (hz : Denotes z r)
    (hnonneg : 0 ≤ r) (hle : x ≤ y) : x * z ≤ y * z := by
  have hleft := hx.mul hz
  have hright := hy.mul hz
  rcases hnonneg.eq_or_lt with rfl | hpos
  · rw [mul_zero] at hleft hright
    exact (hleft.denotes_zero.le_iff hright.denotes_zero).mpr le_rfl
  · rcases ((hx.le_iff hy).mp hle).lt_or_eq with hlt | rfl
    · exact hleft.mono hright (mul_lt_mul_of_pos_right hlt hpos)
    · rcases hx.eq_or_zero hy with rfl | rfl
      · exact hleft.le_self
      · rw [zero_mul] at hleft hright
        exact (hleft.denotes_zero.le_iff hright.denotes_zero).mpr le_rfl

theorem mul_swap (x y : Float) : x * y = y * x := by
  have hsign (s t : Sign) : s * t = t * s := by cases s <;> cases t <;> rfl
  have hmul (u v : UnpackedFloat) :
      UnpackedFloat.mul .binary64 u v = UnpackedFloat.mul .binary64 v u := by
    cases u <;> cases v <;> simp only [UnpackedFloat.mul, hsign, Nat.mul_comm, Int.add_comm]
  exact eq_of_unpack (by rw [unpack_mul, unpack_mul, hmul])

end Operations

end Downhill.FloatGrid
