import Mathlib
import Downhill.Scalar

/-! # Order of scalars

The laws of comparison that hold with not-a-number around: nothing is asked of it, since every
comparison with it is false. Double precision obeys them, because a comparison of doubles is a
comparison of ranks.
-/

namespace Downhill

/-- Comparisons chain, and equal scalars are at most each other. -/
class Scalar.Ordered (α : Type) [Scalar α] : Prop where
  le_of_lt {a b : α} : a < b → a ≤ b
  le_of_beq {a b : α} : (a == b) = true → a ≤ b
  le_trans {a b c : α} : a ≤ b → b ≤ c → a ≤ c
  lt_of_le_of_lt {a b c : α} : a ≤ b → b < c → a < c
  lt_irrefl (a : α) : ¬ a < a

instance {α : Type} [Scalar α] [Scalar.Ordered α] : IsTrans α (· ≤ ·) :=
  ⟨fun _ _ _ => Scalar.Ordered.le_trans⟩

/-! ## Ranks of doubles -/

namespace FloatOrder

open Float.Model

/-- Where a number stands among all others; not-a-number stands nowhere. -/
def rank : UnpackedFloat → Option (ℤ ×ₗ ℤ ×ₗ ℤ)
  | .notANumber => none
  | .infinity .negative => some (toLex (-2, toLex (0, 0)))
  | .finite .negative m e _ => some (toLex (-1, toLex (-e, -m)))
  | .zero _ => some (toLex (0, toLex (0, 0)))
  | .finite .positive m e _ => some (toLex (1, toLex (e, m)))
  | .infinity .positive => some (toLex (2, toLex (0, 0)))

private theorem compare_toLex {β γ : Type} [LinearOrder β] [LinearOrder γ] (a b : β) (x y : γ) :
    compare (toLex (a, x)) (toLex (b, y)) = (compare a b).then (compare x y) := rfl

private theorem compare_neg_neg (a b : ℤ) : compare (-a) (-b) = (compare a b).swap := by
  rw [← cmp_eq_compare, ← cmp_eq_compare, cmp_swap]
  exact StrictAnti.cmp_map_eq (fun _ _ => neg_lt_neg) a b

private theorem compare_natCast (m n : ℕ) : compare (m : ℤ) n = compare m n := by
  rw [← cmp_eq_compare, ← cmp_eq_compare]
  exact StrictMono.cmp_map_eq (fun _ _ => Int.ofNat_lt.mpr) m n

/-- Numbers compare as their ranks do. -/
theorem compare_eq_rank (a b : UnpackedFloat) :
    a.compare b = (rank a).bind fun k => (rank b).map (compare k) := by
  rcases a with ⟨_ | _⟩ | _ | _ | ⟨_ | _, m, e, _⟩ <;>
    rcases b with ⟨_ | _⟩ | _ | _ | ⟨_ | _, n, g, _⟩ <;>
    simp [UnpackedFloat.compare, rank, compare_toLex, compare_neg_neg, compare_natCast,
      Ordering.swap_then] <;>
    rfl

/-- Where a double stands. -/
def standing (x : Float) : Option (ℤ ×ₗ ℤ ×ₗ ℤ) := rank x.toModel.unpack

theorem lt_iff (x y : Float) : x < y ↔ ∃ k ∈ standing x, ∃ l ∈ standing y, k < l := by
  have hcompare : x < y ↔ x.toModel.unpack.compare y.toModel.unpack = some .lt :=
    decide_eq_true_iff.trans beq_iff_eq
  rw [hcompare, compare_eq_rank]
  simp only [standing, Option.bind_eq_some_iff, Option.map_eq_some_iff, compare_lt_iff_lt,
    Option.mem_def]

theorem le_iff (x y : Float) : x ≤ y ↔ ∃ k ∈ standing x, ∃ l ∈ standing y, k ≤ l := by
  have hcompare : x ≤ y ↔ (x.toModel.unpack.compare y.toModel.unpack).any (·.isLE) = true :=
    decide_eq_true_iff
  rw [hcompare, compare_eq_rank]
  simp only [standing, Option.any_eq_true, Option.bind_eq_some_iff, Option.map_eq_some_iff,
    Option.mem_def]
  constructor
  · rintro ⟨_, ⟨k, hk, l, hl, rfl⟩, hle⟩
    exact ⟨k, hk, l, hl, compare_le_iff_le.mp (Ordering.ne_gt_iff_isLE.mpr hle)⟩
  · rintro ⟨k, hk, l, hl, hle⟩
    exact ⟨_, ⟨k, hk, l, hl, rfl⟩, Ordering.ne_gt_iff_isLE.mp (compare_le_iff_le.mpr hle)⟩

theorem beq_iff (x y : Float) : (x == y) = true ↔ ∃ k ∈ standing x, k ∈ standing y := by
  have hcompare : (x == y) = true ↔ x.toModel.unpack.compare y.toModel.unpack = some .eq :=
    show (x.toModel.unpack.compare y.toModel.unpack == some .eq) = true ↔ _ from beq_iff_eq
  rw [hcompare, compare_eq_rank]
  simp only [standing, Option.bind_eq_some_iff, Option.map_eq_some_iff, compare_eq_iff_eq,
    Option.mem_def]
  grind

end FloatOrder

open FloatOrder in
instance : Scalar.Ordered Float where
  le_of_lt {a b} h := by
    obtain ⟨k, hk, l, hl, hlt⟩ := (lt_iff a b).mp h
    exact (le_iff a b).mpr ⟨k, hk, l, hl, hlt.le⟩
  le_of_beq {a b} h := by
    obtain ⟨k, ha, hb⟩ := (beq_iff a b).mp h
    exact (le_iff a b).mpr ⟨k, ha, k, hb, le_rfl⟩
  le_trans {a b c} hab hbc := by
    obtain ⟨k, hk, l, hl, hkl⟩ := (le_iff a b).mp hab
    obtain ⟨l', hl', m, hm, hlm⟩ := (le_iff b c).mp hbc
    obtain rfl : l = l' := Option.mem_unique hl hl'
    exact (le_iff a c).mpr ⟨k, hk, m, hm, hkl.trans hlm⟩
  lt_of_le_of_lt {a b c} hab hbc := by
    obtain ⟨k, hk, l, hl, hkl⟩ := (le_iff a b).mp hab
    obtain ⟨l', hl', m, hm, hlm⟩ := (lt_iff b c).mp hbc
    obtain rfl : l = l' := Option.mem_unique hl hl'
    exact (lt_iff a c).mpr ⟨k, hk, m, hm, hkl.trans_lt hlm⟩
  lt_irrefl a h := by
    obtain ⟨k, hk, l, hl, hkl⟩ := (lt_iff a a).mp h
    obtain rfl : k = l := Option.mem_unique hk hl
    exact lt_irrefl k hkl

end Downhill
