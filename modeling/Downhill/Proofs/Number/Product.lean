import Mathlib
import Downhill.Proofs.Number.Grid
import Downhill.Proofs.Number.Order

/-! # Products of doubles

The product of two positive doubles is the point of the grid that is nearest to the exact product.
So a factor above one never makes a number smaller; it may leave it as it is, but only next to
zero, and only as long as no smaller number grows by it.
-/

namespace Downhill

open Float.Model Float.Model.UnpackedFloat FloatOrder FloatGrid

namespace FloatGrid

/-! ## Positive doubles -/

/-- The double is the positive number with this mantissa and this exponent. -/
def Holds (x : Float) (m : ℕ) (e : ℤ) : Prop := ∃ hm, x.toModel.unpack = .finite .positive m e hm

/-- The double stands above all finite ones. -/
def Exceeds (x : Float) : Prop := x.toModel.unpack = .infinity .positive

theorem Holds.pos {x : Float} {m : ℕ} {e : ℤ} (h : Holds x m e) : 0 < m := by
  obtain ⟨hm, -⟩ := h
  exact hm

theorem Holds.onGrid {x : Float} {m : ℕ} {e : ℤ} (h : Holds x m e) : OnGrid m e := by
  obtain ⟨_, hunpack⟩ := h
  exact (onGrid_of_unpack hunpack).1

theorem Holds.exponent_le {x : Float} {m : ℕ} {e : ℤ} (h : Holds x m e) : e ≤ 971 := by
  obtain ⟨_, hunpack⟩ := h
  exact (onGrid_of_unpack hunpack).2

theorem size_pos {m : ℕ} (hm : 0 < m) (e : ℤ) : 0 < size m e :=
  mul_pos (Nat.cast_pos.mpr hm) (zpow_pos (by norm_num) e)

theorem Holds.size_pos {x : Float} {m : ℕ} {e : ℤ} (h : Holds x m e) : 0 < size m e :=
  FloatGrid.size_pos h.pos e

theorem Holds.standing_eq {x : Float} {m : ℕ} {e : ℤ} (h : Holds x m e) :
    standing x = some (toLex (1, toLex (e, (m : ℤ)))) := by
  obtain ⟨_, hunpack⟩ := h
  simp [standing, hunpack, rank]

theorem Exceeds.standing_eq {x : Float} (h : Exceeds x) :
    standing x = some (toLex (2, toLex (0, 0))) := by
  rw [standing, h]
  rfl

theorem exceeds_infinity : Exceeds Scalar.infinity := rfl

theorem holds_one : Holds 1.0 (2 ^ 52) (-52) := ⟨by norm_num, rfl⟩

theorem standing_zero : standing 0.0 = some (toLex (0, toLex (0, 0))) := rfl

theorem zero_lt_iff (x : Float) : (0.0 : Float) < x ↔ Exceeds x ∨ ∃ m e, Holds x m e := by
  rw [lt_iff, standing_zero]
  unfold standing Exceeds Holds
  rcases x.toModel.unpack with ⟨_ | _⟩ | _ | _ | ⟨_ | _, m, e, _⟩ <;>
    simp_all [rank, Prod.Lex.toLex_lt_toLex]

/-- Positive numbers compare by their sizes. -/
theorem Holds.lt_iff {x y : Float} {m n : ℕ} {e f : ℤ} (h : Holds x m e) (h' : Holds y n f) :
    x < y ↔ size m e < size n f := by
  rw [h.onGrid.size_lt_iff h'.onGrid, FloatOrder.lt_iff, h.standing_eq, h'.standing_eq]
  simp [Prod.Lex.toLex_lt_toLex]

theorem Holds.le_iff {x y : Float} {m n : ℕ} {e f : ℤ} (h : Holds x m e) (h' : Holds y n f) :
    x ≤ y ↔ size m e ≤ size n f := by
  rw [← not_lt, h'.onGrid.size_lt_iff h.onGrid, FloatOrder.le_iff, h.standing_eq, h'.standing_eq]
  simp [Prod.Lex.toLex_le_toLex]
  omega

theorem Holds.lt_of_exceeds {x y : Float} {m : ℕ} {e : ℤ} (h : Holds x m e) (h' : Exceeds y) :
    x < y := by
  rw [FloatOrder.lt_iff, h.standing_eq, h'.standing_eq]
  simp [Prod.Lex.toLex_lt_toLex]

theorem Exceeds.not_lt {x y : Float} (h : Exceeds x) (h' : Exceeds y) : ¬ x < y := by
  rw [FloatOrder.lt_iff, h.standing_eq, h'.standing_eq]
  simp

theorem eq_of_unpack {x y : Float} (h : x.toModel.unpack = y.toModel.unpack) : x = y := by
  have hbits : x.toModel.toBits.toBitVec = y.toModel.toBits.toBitVec :=
    (unpack_inj_of_valid x.toModel.valid y.toModel.valid).mp h
  exact Float.toBits_inj.mp (UInt64.toBitVec_inj.mp hbits)

/-- There is one double with a mantissa and an exponent. -/
theorem Holds.unique {x y : Float} {m : ℕ} {e : ℤ} (h : Holds x m e) (h' : Holds y m e) :
    x = y := by
  obtain ⟨_, hx⟩ := h
  obtain ⟨_, hy⟩ := h'
  exact eq_of_unpack (hx.trans hy.symm)

/-! ## Products -/

/-- The number above one that comes next to it. -/
theorem Holds.one_add_le {y : Float} {n : ℕ} {f : ℤ} (h : Holds y n f) (hone : 1.0 < y) :
    2 ^ 52 ≤ n ∧ 1 + 2 ^ (-52 : ℤ) ≤ size n f := by
  have hlt := (holds_one.onGrid.size_lt_iff h.onGrid).mp ((holds_one.lt_iff h).mp hone)
  have hlong : 2 ^ 52 ≤ n := h.onGrid.normal.resolve_right (by omega)
  refine ⟨hlong, ?_⟩
  have hlong' : (2 : ℚ) ^ 52 ≤ n := by exact_mod_cast hlong
  rcases hlt with hexponent | ⟨hexponent, hmantissa⟩
  · have hunit : (2 : ℚ) ^ (-51 : ℤ) ≤ 2 ^ f := zpow_le_zpow_right₀ (by norm_num) hexponent
    calc (1 : ℚ) + 2 ^ (-52 : ℤ) ≤ 2 ^ 52 * 2 ^ (-51 : ℤ) := by norm_num
      _ ≤ n * 2 ^ f := by gcongr
  · have hnext : (2 : ℚ) ^ 52 + 1 ≤ n := by exact_mod_cast hmantissa
    calc (1 : ℚ) + 2 ^ (-52 : ℤ) = (2 ^ 52 + 1) * 2 ^ (-52 : ℤ) := by norm_num
      _ ≤ n * 2 ^ (-52 : ℤ) := by gcongr
      _ = size n f := by rw [size, ← hexponent]

theorem Holds.le_size_mul {x y : Float} {m n : ℕ} {e f : ℤ} (h : Holds y n f) (hone : 1.0 < y)
    (hx : Holds x m e) : size m e ≤ size m e * size n f := by
  have hfactor := (h.one_add_le hone).2
  have hunit : (0 : ℚ) < 2 ^ (-52 : ℤ) := zpow_pos (by norm_num) _
  exact le_mul_of_one_le_right hx.size_pos.le (by linarith)

/-- What a factor above one adds is more than half a unit in the last place, as it is for a smaller
number that grows. -/
theorem OnGrid.unit_lt {n : ℕ} {f : ℤ} {a b : ℚ} (h : OnGrid n f) (hb : 1 + 2 ^ (-52 : ℤ) ≤ b)
    (ha : a < size n f) (hstep : tiny ≤ 2 * (a * b - a)) :
    2 ^ f < 2 * (size n f * b - size n f) := by
  have hunit : (0 : ℚ) < 2 ^ (-52 : ℤ) := zpow_pos (by norm_num) _
  have hscale : (0 : ℚ) < 2 ^ f := zpow_pos (by norm_num) f
  rcases h.normal with hlong | hleast
  · have hlong' : (2 : ℚ) ^ 52 ≤ n := by exact_mod_cast hlong
    have hadded : 2 ^ f ≤ size n f * (b - 1) := by
      calc (2 : ℚ) ^ f = 2 ^ 52 * 2 ^ f * 2 ^ (-52 : ℤ) := by norm_num; ring
        _ ≤ n * 2 ^ f * (b - 1) := by gcongr; linarith
        _ = size n f * (b - 1) := by rw [size]
    linarith
  · have hadded : a * (b - 1) < size n f * (b - 1) := mul_lt_mul_of_pos_right ha (by linarith)
    have htiny : (2 : ℚ) ^ f = tiny := by rw [hleast, tiny]
    linarith

/-- `r` and `g` stand for the point of the grid that `x` is rounded to. -/
def Rounds (p : ℚ) (r : ℕ) (g : ℤ) : Prop :=
  OnGrid r g ∧ ∀ a c, OnGrid a c → |size r g - p| ≤ |size a c - p|

theorem size_mul (m n : ℕ) (e f : ℤ) : size (m * n) (e + f) = size m e * size n f := by
  rw [size, size, size, zpow_add₀ (by norm_num)]
  push_cast
  ring

theorem unpack_mul (x y : Float) : (x * y).toModel.unpack =
    (Float.Model.pack (UnpackedFloat.mul .binary64 x.toModel.unpack y.toModel.unpack)).unpack := rfl

theorem Exceeds.mul {x y : Float} (h : Exceeds x) (h' : Exceeds y ∨ ∃ n f, Holds y n f) :
    Exceeds (x * y) := by
  have hpack := unpack_pack_infinity .positive
  rcases h' with h' | ⟨n, f, _, h'⟩ <;> rw [Exceeds, unpack_mul, h, h'] <;> exact hpack

theorem Holds.mul_exceeds {x y : Float} {m : ℕ} {e : ℤ} (h : Holds x m e) (h' : Exceeds y) :
    Exceeds (x * y) := by
  obtain ⟨_, h⟩ := h
  rw [Exceeds, unpack_mul, h, h']
  exact unpack_pack_infinity .positive

/-- An exact product of doubles has more bits than a double or no smaller unit. -/
theorem OnGrid.fine_mul {m n : ℕ} {e f : ℤ} (h : OnGrid m e) (h' : OnGrid n f) (hm : 0 < m)
    (hn : 0 < n) : Fine (m * n) (e + f) := by
  rcases h.normal with hlong | hleast
  · exact .inl (hlong.trans (Nat.le_mul_of_pos_right m hn))
  · rcases h'.normal with hlong' | hleast'
    · exact .inl (hlong'.trans (Nat.le_mul_of_pos_left n hm))
    · exact .inr (by omega)

theorem Holds.fine_mul {x y : Float} {m n : ℕ} {e f : ℤ} (h : Holds x m e) (h' : Holds y n f) :
    Fine (m * n) (e + f) :=
  h.onGrid.fine_mul h'.onGrid h.pos h'.pos

/-- The product, while it is not too large to be written down. -/
theorem Holds.mul {x y : Float} {m n : ℕ} {e f : ℤ} (h : Holds x m e) (h' : Holds y n f) :
    ∃ r g, Rounds (size m e * size n f) r g ∧
      (0 < r → if g ≤ 971 then Holds (x * y) r g else Exceeds (x * y)) := by
  have hproduct : 0 < m * n := Nat.mul_pos h.pos h'.pos
  obtain ⟨r, g, hgrid, hnearest, hround⟩ := exists_nearest .positive hproduct (h.fine_mul h')
  rw [size_mul] at hnearest
  refine ⟨r, g, ⟨hgrid, hnearest⟩, fun hr => ?_⟩
  rw [dif_neg (by omega)] at hround
  obtain ⟨_, hx⟩ := h
  obtain ⟨_, hy⟩ := h'
  have hunpack : (x * y).toModel.unpack = if g ≤ 971 then .finite .positive r g hr
      else .infinity .positive := by
    have hpositive : Sign.positive * Sign.positive = Sign.positive := rfl
    rw [unpack_mul, hx, hy, UnpackedFloat.mul, hpositive, hround, unpack_pack_of_onGrid hgrid]
  split
  · rename_i hsmall
    exact ⟨hr, by rw [hunpack, if_pos hsmall]⟩
  · rename_i hlarge
    rw [Exceeds, hunpack, if_neg hlarge]

section Rounds

variable {p q : ℚ} {m r : ℕ} {e g : ℤ}

/-- Rounding does not take a number below a point of the grid that it is above. -/
theorem Rounds.le (h : Rounds p r g) (hgrid : OnGrid m e) (hle : size m e ≤ p) :
    size m e ≤ size r g := by
  by_contra hlt
  rw [not_le] at hlt
  have hnear := h.2 m e hgrid
  rw [abs_of_neg (by linarith), abs_of_nonpos (by linarith)] at hnear
  linarith

/-- If rounding leads away from a point of the grid, the number is nearer to the next one. -/
theorem Rounds.tiny_le (h : Rounds p r g) (hgrid : OnGrid m e) (hle : size m e ≤ p)
    (hlt : size m e < size r g) : tiny ≤ 2 * (p - size m e) := by
  have hnear := h.2 m e hgrid
  have hnext := hgrid.add_tiny_le h.1 hlt
  rw [abs_of_nonpos (by linarith : size m e - p ≤ 0)] at hnear
  have := le_abs_self (size r g - p)
  linarith

/-- A number that is nearer to the next point of the grid is rounded up. -/
theorem Rounds.lt (h : Rounds p r g) (hgrid : OnGrid m e) (hnear : 2 ^ e < 2 * (p - size m e)) :
    size m e < size r g := by
  have hunit : (0 : ℚ) < 2 ^ e := zpow_pos (by norm_num) e
  have hle : size m e ≤ size r g := h.le hgrid (by linarith)
  refine lt_of_le_of_ne hle fun heq => ?_
  obtain ⟨n, f, hnext, hsize⟩ := hgrid.succ
  have hnearest := h.2 n f hnext
  rw [← heq, hsize, abs_of_neg (by linarith : size m e - p < 0)] at hnearest
  rcases abs_cases (size m e + 2 ^ e - p) with ⟨habs, _⟩ | ⟨habs, _⟩ <;> linarith

end Rounds

/-- Whether a number grows by a factor above one is a matter of where the product is rounded to. -/
theorem Holds.lt_mul_iff {x y : Float} {m n : ℕ} {e f : ℤ} (h : Holds x m e) (h' : Holds y n f)
    (hone : 1.0 < y) :
    ∃ r g, Rounds (size m e * size n f) r g ∧ (x < x * y ↔ size m e < size r g) ∧ x ≤ x * y := by
  obtain ⟨r, g, hrounds, hmul⟩ := h.mul h'
  have hle : size m e ≤ size r g := hrounds.le h.onGrid (h'.le_size_mul hone h)
  have hr : 0 < r := by
    refine Nat.pos_of_ne_zero fun hzero => ?_
    have hsize : size r g = 0 := by simp [hzero, size]
    linarith [h.size_pos]
  refine ⟨r, g, hrounds, ?_⟩
  have hproduct := hmul hr
  split at hproduct
  · exact ⟨h.lt_iff hproduct, (h.le_iff hproduct).mpr hle⟩
  · rename_i hlarge
    have hlt : x < x * y := h.lt_of_exceeds hproduct
    have hexponent : e < g := h.exponent_le.trans_lt (not_le.mp hlarge)
    have hgrid : size m e < size r g := h.onGrid.size_lt_of_lt hrounds.1 hexponent
    exact ⟨iff_of_true hlt hgrid, Scalar.Ordered.le_of_lt hlt⟩

theorem cases_of_one_lt {y : Float} (h : 1.0 < y) : Exceeds y ∨ ∃ n f, Holds y n f := by
  have hzero : (0.0 : Float) < 1.0 := by decide +kernel
  exact (zero_lt_iff y).mp (Scalar.Ordered.lt_of_le_of_lt (Scalar.Ordered.le_of_lt hzero) h)

end FloatGrid

/-! ## Growth -/

namespace FloatOrder

theorem lt_of_lt_le {x y z : Float} (hxy : x < y) (hyz : y ≤ z) : x < z := by
  obtain ⟨k, hk, l, hl, hkl⟩ := (lt_iff x y).mp hxy
  obtain ⟨l', hl', m, hm, hlm⟩ := (le_iff y z).mp hyz
  obtain rfl : l = l' := Option.mem_unique hl hl'
  exact (lt_iff x z).mpr ⟨k, hk, m, hm, hkl.trans_le hlm⟩

/-- Whatever compares with another number is one. -/
theorem le_self {x y : Float} (h : x ≤ y ∨ y ≤ x) : x ≤ x := by
  rcases h with h | h
  · obtain ⟨k, hk, -⟩ := (le_iff x y).mp h
    exact (le_iff x x).mpr ⟨k, hk, k, hk, le_rfl⟩
  · obtain ⟨-, -, k, hk, -⟩ := (le_iff y x).mp h
    exact (le_iff x x).mpr ⟨k, hk, k, hk, le_rfl⟩

theorem le_of_not_lt {x y : Float} (hx : x ≤ x) (hy : y ≤ y) (h : ¬ x < y) : y ≤ x := by
  obtain ⟨k, hk, -⟩ := (le_iff x x).mp hx
  obtain ⟨l, hl, -⟩ := (le_iff y y).mp hy
  have hle : l ≤ k := not_lt.mp fun hlt => h ((lt_iff x y).mpr ⟨k, hk, l, hl, hlt⟩)
  exact (le_iff y x).mpr ⟨l, hl, k, hk, hle⟩

/-- Positive numbers that are at most each other are the same. -/
theorem eq_of_le_of_not_lt {x y : Float} (hx : 0.0 < x) (hle : x ≤ y) (h : ¬ x < y) : x = y := by
  rcases (zero_lt_iff x).mp hx with hexceeds | ⟨m, e, hholds⟩
  all_goals rcases (zero_lt_iff y).mp (lt_of_lt_le hx hle) with hexceeds' | ⟨n, f, hholds'⟩
  · exact eq_of_unpack (hexceeds.trans hexceeds'.symm)
  · have hlt := Scalar.Ordered.lt_of_le_of_lt hle (hholds'.lt_of_exceeds hexceeds)
    exact absurd hlt (Scalar.Ordered.lt_irrefl x)
  · exact absurd (hholds.lt_of_exceeds hexceeds') h
  · have hsize : size m e = size n f :=
      le_antisymm ((hholds.le_iff hholds').mp hle) (not_lt.mp ((hholds.lt_iff hholds').not.mp h))
    obtain ⟨rfl, rfl⟩ := hholds.onGrid.eq_of_size_eq hholds'.onGrid hsize
    exact hholds.unique hholds'

/-- Between equal numbers there is no other one. -/
theorem beq_of_le_of_le {x y z : Float} (hxy : x ≤ y) (hyz : y ≤ z) (h : (x == z) = true) :
    (y == x) = true := by
  obtain ⟨k, hk, l, hl, hkl⟩ := (le_iff x y).mp hxy
  obtain ⟨l', hl', m, hm, hlm⟩ := (le_iff y z).mp hyz
  obtain ⟨j, hj, hj'⟩ := (beq_iff x z).mp h
  obtain rfl : l = l' := Option.mem_unique hl hl'
  obtain rfl : k = j := Option.mem_unique hk hj
  obtain rfl : m = k := Option.mem_unique hm hj'
  obtain rfl : l = m := le_antisymm hlm hkl
  exact (beq_iff y x).mpr ⟨l, hl, hk⟩

theorem le_infinity {x : Float} (hx : 0.0 < x) : x ≤ Scalar.infinity := by
  rcases (zero_lt_iff x).mp hx with hexceeds | ⟨m, e, hholds⟩
  · rw [le_iff, hexceeds.standing_eq, exceeds_infinity.standing_eq]
    exact ⟨_, rfl, _, rfl, le_rfl⟩
  · exact Scalar.Ordered.le_of_lt (hholds.lt_of_exceeds exceeds_infinity)

variable {x y z : Float} (hx : 0.0 < x) (hy : 1.0 < y)

include hx hy

/-- A product with a factor above one is not smaller. -/
theorem le_mul : x ≤ x * y := by
  have hfactor := cases_of_one_lt hy
  rcases (zero_lt_iff x).mp hx with hexceeds | ⟨m, e, hholds⟩
  · rw [le_iff, hexceeds.standing_eq, (hexceeds.mul hfactor).standing_eq]
    exact ⟨_, rfl, _, rfl, le_rfl⟩
  · rcases hfactor with hexceeds | ⟨n, f, hfactor⟩
    · exact Scalar.Ordered.le_of_lt (hholds.lt_of_exceeds (hholds.mul_exceeds hexceeds))
    · obtain ⟨r, g, -, -, hle⟩ := hholds.lt_mul_iff hfactor hy
      exact hle

/-- If a number grows by a factor above one, so does every larger one that is finite. -/
theorem lt_mul_of_le (hgrows : x < x * y) (hle : x ≤ z) (hz : z < Scalar.infinity) : z < z * y := by
  have hzpos : 0.0 < z := lt_of_lt_le hx hle
  rcases (zero_lt_iff z).mp hzpos with hexceeds | ⟨n, f, hholds⟩
  · exact absurd hz (hexceeds.not_lt exceeds_infinity)
  · rcases (zero_lt_iff x).mp hx with hexceeds | ⟨m, e, hsmall⟩
    · exact absurd hgrows (hexceeds.not_lt (hexceeds.mul (cases_of_one_lt hy)))
    · rcases cases_of_one_lt hy with hexceeds | ⟨k, c, hfactor⟩
      · exact hholds.lt_of_exceeds (hholds.mul_exceeds hexceeds)
      · obtain ⟨r, g, hrounds, hiff, -⟩ := hsmall.lt_mul_iff hfactor hy
        obtain ⟨r', g', hrounds', hiff', -⟩ := hholds.lt_mul_iff hfactor hy
        have hstep : tiny ≤ 2 * (size m e * size k c - size m e) :=
          hrounds.tiny_le hsmall.onGrid (hfactor.le_size_mul hy hsmall) (hiff.mp hgrows)
        rcases ((hsmall.le_iff hholds).mp hle).lt_or_eq with hlt | heq
        · have hnear := hholds.onGrid.unit_lt (hfactor.one_add_le hy).2 hlt hstep
          exact hiff'.mpr (hrounds'.lt hholds.onGrid hnear)
        · obtain ⟨rfl, rfl⟩ := hsmall.onGrid.eq_of_size_eq hholds.onGrid heq
          exact hsmall.unique hholds ▸ hgrows

theorem pos_mul : 0.0 < x * y := lt_of_lt_le hx (le_mul hx hy)

end FloatOrder

/-- Positive scalars stay positive when they grow by a factor above one. -/
class Scalar.Growing (α : Type) [Scalar α] : Prop where
  pos_mul {a g : α} : (0.0 : α) < a → (1.0 : α) < g → (0.0 : α) < a * g

instance : Scalar.Growing Float where
  pos_mul := FloatOrder.pos_mul

end Downhill
