import Mathlib
import Downhill.Proofs.Linear.Lanes
import Downhill.Proofs.Number.Product

/-! # Sums of squares

A sum of squares of doubles is finite only if all of them are. The other way round, a sum of squares
of finite doubles is never not-a-number: if it is not finite, it has become infinite.
-/

namespace Downhill

open Float.Model Float.Model.UnpackedFloat FloatGrid

/-! ## Finite operands -/

namespace FloatGrid

theorem isFinite_eq_unpack (x : Float) : x.isFinite = x.toModel.unpack.isFinite := rfl

theorem unpack_add (x y : Float) : (x + y).toModel.unpack =
    (Float.Model.pack (UnpackedFloat.add .binary64 x.toModel.unpack y.toModel.unpack)).unpack := rfl

theorem isFinite_zero (s : Sign) : (zero s).isFinite = true := rfl

theorem isFinite_finite (s : Sign) (m : ℕ) (e : ℤ) (hm : 0 < m) :
    (finite s m e hm).isFinite = true := rfl

theorem isFinite_pack_notANumber : (Float.Model.pack .notANumber).unpack.isFinite = false := rfl

theorem isFinite_pack_infinity (s : Sign) :
    (Float.Model.pack (.infinity s)).unpack.isFinite = false := by
  rw [unpack_pack_infinity]
  rfl

theorem isFinite_of_add {x y : Float} (h : (x + y).isFinite = true) :
    x.isFinite = true ∧ y.isFinite = true := by
  rw [isFinite_eq_unpack, unpack_add] at h
  rw [isFinite_eq_unpack, isFinite_eq_unpack]
  generalize x.toModel.unpack = u at h ⊢
  generalize y.toModel.unpack = v at h ⊢
  cases u <;> cases v <;>
    simp_all [UnpackedFloat.add, isFinite_zero, isFinite_finite, apply_ite, isFinite_pack_infinity,
      isFinite_pack_notANumber]

theorem isFinite_of_mul {x y : Float} (h : (x * y).isFinite = true) :
    x.isFinite = true ∧ y.isFinite = true := by
  rw [isFinite_eq_unpack, unpack_mul] at h
  rw [isFinite_eq_unpack, isFinite_eq_unpack]
  generalize x.toModel.unpack = u at h ⊢
  generalize y.toModel.unpack = v at h ⊢
  cases u <;> cases v <;>
    simp_all [UnpackedFloat.mul, isFinite_zero, isFinite_finite, isFinite_pack_infinity,
      isFinite_pack_notANumber]

/-! ## Signs -/

/-- A number with this sign, zero and infinity included. -/
def Signed (s : Sign) : UnpackedFloat → Prop
  | .notANumber => False
  | .infinity t => t = s
  | .zero t => t = s
  | .finite t _ _ _ => t = s

theorem signed_packComponents {s : Sign} {e : BitVec 11} {m : BitVec 52} (he : e ≠ -1#11) :
    Signed s (UnpackedFloat.unpack .binary64 (packComponents .binary64 s e m)) := by
  have hsign : Sign.ofBitVec s.toBitVec = s := Sign.ofBitVec_toBitVec s
  simp only [UnpackedFloat.unpack, unpackMantissa_packComponents, unpackExponent_packComponents,
    unpackSign_packComponents, hsign]
  rw [if_neg he]
  split
  · split
    · rfl
    · rfl
  · rfl

/-- Packing keeps the sign. -/
theorem Signed.pack {s : Sign} {u : UnpackedFloat} (h : Signed s u) :
    Signed s (Float.Model.pack u).unpack := by
  cases u with
  | notANumber => exact h.elim
  | infinity t =>
      rw [unpack_pack_infinity]
      exact h
  | zero t =>
      obtain rfl : t = s := h
      cases t <;> rfl
  | finite t m e hm =>
      obtain rfl : t = s := h
      change Signed t (UnpackedFloat.unpack .binary64 (UnpackedFloat.pack .binary64 _))
      unfold UnpackedFloat.pack
      dsimp only
      split
      · cases t <;> rfl
      · rename_i hsmall
        split
        · refine signed_packComponents fun heq => ?_
          have hfull := congrArg BitVec.toNat heq
          change _ % 2 ^ 11 = 2047 at hfull
          omega
        · exact signed_packComponents (by decide)

theorem signed_roundWithAccuracy (s : Sign) (m : ℕ) (e : ℤ) (accuracy : Accuracy) :
    Signed s (roundWithAccuracy .binary64 s m e accuracy) := by
  unfold roundWithAccuracy
  dsimp only
  split <;> rfl

/-- Sums of positive numbers are positive. -/
theorem Signed.add {u v : UnpackedFloat} (h : Signed .positive u) (h' : Signed .positive v) :
    Signed .positive (UnpackedFloat.add .binary64 u v) := by
  cases u with
  | notANumber => exact h.elim
  | infinity s =>
      obtain rfl : s = .positive := h
      cases v with
      | notANumber => exact h'.elim
      | infinity t =>
          obtain rfl : t = .positive := h'
          rfl
      | zero t => rfl
      | finite t n f hn => rfl
  | zero s =>
      obtain rfl : s = .positive := h
      cases v with
      | notANumber => exact h'.elim
      | infinity t => exact h'
      | zero t =>
          obtain rfl : t = .positive := h'
          rfl
      | finite t n f hn => exact h'
  | finite s m e hm =>
      obtain rfl : s = .positive := h
      cases v with
      | notANumber => exact h'.elim
      | infinity t => exact h'
      | zero t => rfl
      | finite t n f hn =>
          obtain rfl : t = .positive := h'
          unfold UnpackedFloat.add UnpackedFloat.normalize
          dsimp only
          have hm' : 0 < (decreaseExponent m e (min e f)).1 := by
            simpa [decreaseExponent, Nat.shiftLeft_eq] using hm
          have hpos : 0 < Sign.positive.apply (decreaseExponent m e (min e f)).1 +
              Sign.positive.apply (decreaseExponent n f (min e f)).1 := by
            simp only [Sign.apply]
            omega
          rw [compare_gt_iff_gt.mpr hpos]
          exact signed_roundWithAccuracy _ _ _ _

theorem Signed.mul_finite {s t : Sign} {u : UnpackedFloat} (h : Signed s u) {n : ℕ} {f : ℤ}
    (hn : 0 < n) : Signed (s * t) (UnpackedFloat.mul .binary64 u (.finite t n f hn)) := by
  cases u with
  | notANumber => exact h.elim
  | infinity _ =>
      obtain rfl := h
      rfl
  | zero _ =>
      obtain rfl := h
      rfl
  | finite _ m e hm =>
      obtain rfl := h
      exact signed_roundWithAccuracy _ _ _ _

theorem signed_mul_self {u : UnpackedFloat} (h : u.isFinite = true) :
    Signed .positive (UnpackedFloat.mul .binary64 u u) := by
  have hsign (s : Sign) : s * s = .positive := by cases s <;> rfl
  cases u with
  | notANumber => contradiction
  | infinity s => contradiction
  | zero s => exact hsign s
  | finite s m e hm =>
      have hfinite : Signed s (.finite s m e hm) := rfl
      exact hsign s ▸ hfinite.mul_finite hm

/-- The double is at least zero, and not the zero with the other sign. -/
def Upward (x : Float) : Prop := Signed .positive x.toModel.unpack

theorem upward_zero : Upward 0.0 := rfl

theorem upward_two : Upward 2.0 := rfl

theorem Upward.add {x y : Float} (h : Upward x) (h' : Upward y) : Upward (x + y) :=
  (Signed.add h h').pack

theorem upward_mul_self {x : Float} (h : x.isFinite = true) : Upward (x * x) :=
  (signed_mul_self h).pack

theorem Upward.mul_holds {x y : Float} {m : ℕ} {e : ℤ} (h : Upward x) (h' : Holds y m e) :
    Upward (x * y) := by
  obtain ⟨hm, hy⟩ := h'
  rw [Upward, unpack_mul, hy]
  exact (Signed.mul_finite h hm).pack

theorem Exceeds.upward {x : Float} (h : Exceeds x) : Upward x := by
  rw [Upward, h]
  rfl

theorem Upward.nonneg {x : Float} (h : Upward x) : 0.0 ≤ x := by
  rw [FloatOrder.le_iff, standing_zero]
  unfold Upward at h
  unfold FloatOrder.standing
  cases hunpack : x.toModel.unpack with
  | notANumber => exact (hunpack ▸ h).elim
  | infinity s =>
      obtain rfl : s = .positive := by rwa [hunpack] at h
      exact ⟨_, rfl, _, rfl, by decide⟩
  | zero s => exact ⟨_, rfl, _, rfl, le_rfl⟩
  | finite s m e hm =>
      obtain rfl : s = .positive := by rwa [hunpack] at h
      exact ⟨_, rfl, _, rfl, Prod.Lex.toLex_le_toLex.mpr (.inl zero_lt_one)⟩

theorem Upward.eq_infinity {x : Float} (h : Upward x) (hx : x.isFinite = false) :
    x = Scalar.infinity := by
  refine eq_of_unpack ?_
  rw [isFinite_eq_unpack] at hx
  unfold Upward at h
  cases hunpack : x.toModel.unpack with
  | notANumber => exact (hunpack ▸ h).elim
  | infinity s =>
      obtain rfl : s = .positive := by rwa [hunpack] at h
      exact exceeds_infinity.symm
  | zero s => rw [hunpack] at hx; contradiction
  | finite s m e hm => rw [hunpack] at hx; contradiction

end FloatGrid

/-! ## Norms -/

namespace Vec

open FloatGrid

variable {x : Vec Float}

theorem isFinite_of_normSq (h : Scalar.isFinite x.normSq = true) {a : Float} (ha : a ∈ x) :
    a.isFinite = true := by
  have hsquare : Float.isFinite (a * a) = true :=
    of_normSq (P := fun a => Float.isFinite a = true) (fun _ _ => isFinite_of_add) h ha
  exact (isFinite_of_mul hsquare).1

theorem normSq_eq_infinity (h : ∀ a ∈ x, a.isFinite = true)
    (hnorm : Scalar.isFinite x.normSq = false) : x.normSq = Scalar.infinity := by
  have hupward : Upward x.normSq :=
    normSq_of (P := Upward) (fun _ _ h h' => h.add h') upward_zero fun a ha =>
      upward_mul_self (h a ha)
  exact hupward.eq_infinity hnorm

/-- A sum of squares is not finite if one of the numbers is not, or if all of them are but the sum
has become infinite, and in no other case. -/
theorem not_isFinite_normSq_iff : Scalar.isFinite x.normSq = false ↔
    (∃ a ∈ x, a.isFinite = false) ∨
      (∀ a ∈ x, a.isFinite = true) ∧ x.normSq = Scalar.infinity := by
  constructor
  · intro hnorm
    by_cases hfinite : ∀ a ∈ x, a.isFinite = true
    · exact .inr ⟨hfinite, normSq_eq_infinity hfinite hnorm⟩
    · exact .inl (by simpa using hfinite)
  · rintro (⟨a, ha, hinfinite⟩ | ⟨-, hnorm⟩)
    · by_contra hnorm
      rw [isFinite_of_normSq (by simpa using hnorm) ha] at hinfinite
      contradiction
    · rw [hnorm]
      rfl

end Vec

/-- With every tolerance above zero, an empty gradient is small enough. -/
class Scalar.SettlesEmpty (α : Type) [Scalar α] : Prop where
  normSq_nil_le {tolerance : α} : (0.0 : α) < tolerance →
    Vec.normSq ([] : Vec α) ≤ 2.0 * tolerance * tolerance

open FloatGrid in
instance : Scalar.SettlesEmpty Float where
  normSq_nil_le {tolerance} h := by
    have hnil : Vec.normSq ([] : Vec Float) = 0.0 := by decide +kernel
    have htwo : Holds 2.0 (2 ^ 52) (-51) := ⟨by norm_num, rfl⟩
    rw [hnil]
    rcases (zero_lt_iff tolerance).mp h with hexceeds | ⟨m, e, hholds⟩
    · exact ((htwo.mul_exceeds hexceeds).mul (.inl hexceeds)).upward.nonneg
    · have hdouble : Upward (2.0 * tolerance) := upward_two.mul_holds hholds
      exact (hdouble.mul_holds hholds).nonneg

end Downhill
