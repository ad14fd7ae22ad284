import Mathlib
import Downhill.Proofs.Number.Predecessor
import Downhill.Proofs.Number.Reading
import Downhill.Proofs.Sampling.Stream

/-! # Coordinates in their range

The scale of a range is lowered until the largest fraction stays in it. So all coordinates do, since
rounding keeps the order.
-/

namespace Downhill

open Float.Model Float.Model.UnpackedFloat FloatGrid FloatOrder

namespace Sampling

/-! ## Fractions -/

theorem holds_epsilon : Holds 2.220446049250313e-16 (2 ^ 52) (-104) := by decide +kernel

theorem holds_topFraction : Holds Drawable.topFraction (2 ^ 53 - 2) (-53) := by decide +kernel

theorem denotes_epsilon : Denotes 2.220446049250313e-16 (1 / 2 ^ 52) := by
  have hsize : size (2 ^ 52) (-104) = 1 / 2 ^ 52 := by rw [size_two_pow]; norm_num
  exact hsize ▸ holds_epsilon.denotes

theorem denotes_topFraction : Denotes Drawable.topFraction (1 - 1 / 2 ^ 52) := by
  have hsize : size (2 ^ 53 - 2) (-53) = 1 - 1 / 2 ^ 52 := by rw [size]; norm_num
  exact hsize ▸ holds_topFraction.denotes

theorem denotes_toFloat {k : ℕ} (hsmall : k < 2 ^ 53) : Denotes k.toUInt64.toFloat k := by
  rcases k.eq_zero_or_pos with rfl | hpos
  · exact_mod_cast denotes_zero
  · exact (onGrid_natural hpos hsmall).2 ▸ (holds_toFloat hpos hsmall).denotes

/-- A short natural number over a power of two is on the grid. -/
theorem isPoint_div {k : ℕ} (hsmall : k < 2 ^ 53) : IsPoint (k / 2 ^ 52) := by
  rcases k.eq_zero_or_pos with rfl | hpos
  · simpa using isPoint_zero
  · obtain ⟨hgrid, hsize⟩ := onGrid_natural hpos hsmall
    have hlong := hgrid.normal.resolve_right (by omega)
    refine ⟨_, (k.log2 - 52 : ℤ) - 52, ⟨hgrid.small, by omega, .inl hlong⟩, ?_⟩
    rw [abs_of_nonneg (by positivity), size, zpow_sub₀ (by norm_num), ← mul_div_assoc]
    exact congrArg (· / _) hsize.symm

theorem fraction_lt (w : UInt64) : (w >>> 12).toNat < 2 ^ 52 := by
  have hword : w.toNat < 2 ^ 64 := w.toNat_lt
  rw [UInt64.toNat_shiftRight]
  change w.toNat >>> 12 < 2 ^ 52
  rw [Nat.shiftRight_eq_div_pow]
  omega

/-- A fraction is a multiple of the smallest one, without rounding. -/
theorem denotes_fraction (w : UInt64) :
    Denotes (Drawable.fraction w) ((w >>> 12).toNat / 2 ^ 52) := by
  have hlt := fraction_lt w
  have hword : (w >>> 12).toNat.toUInt64 = w >>> 12 := UInt64.ofNat_toNat
  have hdenotes := denotes_toFloat (hlt.trans (by norm_num))
  rw [hword] at hdenotes
  have hbecomes := hdenotes.mul denotes_epsilon
  rw [mul_one_div] at hbecomes
  refine hbecomes.denotes (isPoint_div (hlt.trans (by norm_num))) ?_
  rw [abs_of_nonneg (by positivity)]
  have hlt' : ((w >>> 12).toNat : ℚ) / 2 ^ 52 < 1 := by
    rw [div_lt_one (by positivity)]
    exact_mod_cast hlt
  exact hlt'.trans_le (one_le_zpow₀ (by norm_num) (by norm_num))

theorem fraction_le (w : UInt64) : ((w >>> 12).toNat : ℚ) / 2 ^ 52 ≤ 1 - 1 / 2 ^ 52 := by
  have hle : ((w >>> 12).toNat : ℚ) ≤ 2 ^ 52 - 1 := by
    rw [le_sub_iff_add_le]
    exact_mod_cast fraction_lt w
  rw [div_le_iff₀ (by positivity), sub_mul, one_div, inv_mul_cancel₀ (by positivity), one_mul]
  exact hle

/-! ## Coordinates -/

section Place

variable {lo hi scale : Float} {l h s : ℚ}

/-- With a scale that fits, each coordinate lies in the range. -/
theorem place_bounds (hlo : Denotes lo l) (hhi : Denotes hi h) (hscale : Denotes scale s)
    (hnonneg : 0 ≤ s) (hfits : ¬ hi < scale * Drawable.topFraction + lo) (w : UInt64) :
    lo ≤ place lo scale w ∧ place lo scale w ≤ hi := by
  have hfraction := denotes_fraction w
  have hlow : (0 : ℚ) ≤ (w >>> 12).toNat / 2 ^ 52 := by positivity
  have hhigh := fraction_le w
  have htop : (0 : ℚ) ≤ 1 - 1 / 2 ^ 52 := hlow.trans hhigh
  have hone : (1 : ℚ) - 1 / 2 ^ 52 ≤ 1 := by norm_num
  obtain ⟨p, hterm, hp, -⟩ := (hfraction.mul hscale).exists_denotes hscale
    (mul_nonneg hlow hnonneg) (mul_le_of_le_one_left hnonneg (hhigh.trans hone))
  obtain ⟨t, hlargest, -, -⟩ := (hscale.mul denotes_topFraction).exists_denotes hscale
    (mul_nonneg hnonneg htop) (mul_le_of_le_one_right hnonneg hone)
  constructor
  · exact (hterm.add hlo).ge hlo (by linarith)
  · have hle : Drawable.fraction w * scale ≤ scale * Drawable.topFraction := by
      rw [mul_swap scale]
      exact hfraction.mul_le_mul denotes_topFraction hscale hnonneg
        ((hfraction.le_iff denotes_topFraction).mpr hhigh)
    calc place lo scale w ≤ scale * Drawable.topFraction + lo := hterm.add_le_add hlargest hlo hle
      _ ≤ hi := le_of_not_lt hhi.le_self (hlargest.add hlo).le_self hfits

/-- A scale of zero fits. -/
theorem not_lt_of_zero (hlo : Denotes lo l) (hhi : Denotes hi h) (hle : lo ≤ hi)
    (hscale : Denotes scale 0) : ¬ hi < scale * Drawable.topFraction + lo := by
  have hproduct := hscale.mul denotes_topFraction
  rw [zero_mul] at hproduct
  have hsum := hproduct.denotes_zero.add hlo
  rw [zero_add] at hsum
  have hsum' := hsum.denotes hlo.isPoint hlo.abs_lt
  rw [hhi.lt_iff hsum', not_lt]
  exact (hlo.le_iff hhi).mp hle

end Place

/-! ## Scales -/

/-- A scale is lowered step by step until it fits. -/
inductive Lowered (lo hi : Float) : Float → Float → Prop where
  | fits {scale : Float} : ¬ hi < scale * Drawable.topFraction + lo → Lowered lo hi scale scale
  | lower {scale fitted : Float} : hi < scale * Drawable.topFraction + lo →
      Lowered lo hi (Drawable.predecessor scale) fitted → Lowered lo hi scale fitted

section Scale

variable {lo hi scale fitted : Float} {l h s : ℚ}

theorem Lowered.fits_fitted (hlowered : Lowered lo hi scale fitted) :
    ¬ hi < fitted * Drawable.topFraction + lo := by
  induction hlowered with
  | fits hfits => exact hfits
  | lower _ _ ih => exact ih

/-- There are enough predecessors for a scale to be found, and it is not negative. -/
theorem fit_lowered (hlo : Denotes lo l) (hhi : Denotes hi h) (hle : lo ≤ hi) (k : ℕ)
    (hscale : Denotes scale s) (hnonneg : 0 ≤ s) (hrank : Drawable.rank scale ≤ k) :
    Lowered lo hi scale (fit lo hi k scale) ∧ ∃ r, Denotes (fit lo hi k scale) r ∧ 0 ≤ r := by
  induction k generalizing scale s with
  | zero =>
      have hzero : s = 0 := by
        by_contra hne
        have hpos := (toBits_bounds hscale (lt_of_le_of_ne hnonneg (Ne.symm hne))).1
        exact absurd hrank (not_le.mpr hpos)
      subst hzero
      exact ⟨.fits (not_lt_of_zero hlo hhi hle hscale), 0, hscale, le_rfl⟩
  | succ k ih =>
      rw [fit]
      by_cases hover : hi < scale * Drawable.topFraction + lo
      · rw [if_pos hover]
        have hne : s ≠ 0 := by
          rintro rfl
          exact not_lt_of_zero hlo hhi hle hscale hover
        obtain ⟨q, hq, hnonneg', hrank'⟩ :=
          exists_denotes_predecessor hscale (lt_of_le_of_ne hnonneg hne.symm)
        obtain ⟨hlowered, hr⟩ := ih hq hnonneg' (by omega)
        exact ⟨.lower hover hlowered, hr⟩
      · rw [if_neg hover]
        exact ⟨.fits hover, s, hscale, hnonneg⟩

/-- The scale to start from is not negative either. -/
theorem exists_denotes_div (hscale : Becomes s scale) (hnonneg : 0 ≤ s)
    (hfinite : (scale / Drawable.topFraction).isFinite = true) :
    ∃ r, Denotes (scale / Drawable.topFraction) r ∧ 0 ≤ r := by
  obtain ⟨p, hclosest, hstands⟩ := hscale
  have hp : 0 ≤ p := hclosest.ge isPoint_zero hnonneg
  have hquotient := unpack_div scale Drawable.topFraction
  obtain ⟨hn, htop⟩ := holds_topFraction
  rw [htop] at hquotient
  rcases hstands with (hzero | @⟨t, m, e, hm, hunpack⟩) | @⟨t, hunpack, hlarge⟩
  · rw [hzero] at hquotient
    exact ⟨0, .zero (hquotient.trans (unpack_pack_zero _)), le_rfl⟩
  · cases t with
    | negative =>
        simp only [factor] at hp
        linarith [size_pos hm e]
    | positive =>
        rw [hunpack] at hquotient
        have hupward : Upward (scale / Drawable.topFraction) := by
          rw [Upward, hquotient]
          exact (signed_roundWithAccuracy _ _ _ _).pack
        exact hupward.exists_denotes hfinite
  · cases t with
    | negative =>
        simp only [factor] at hlarge
        linarith [limit_pos]
    | positive =>
        have hexceeds : Exceeds (scale / Drawable.topFraction) :=
          Exceeds.div hunpack holds_topFraction
        rw [isFinite_eq_unpack, hexceeds] at hfinite
        cases hfinite

/-- Coordinates can be drawn from the range, as long as its scale does not overflow. -/
structure Spannable (lo hi : Float) : Prop where
  lo_finite : lo.isFinite = true
  hi_finite : hi.isFinite = true
  le : lo ≤ hi
  scale_finite : ((hi - lo) / Drawable.topFraction).isFinite = true

/-- The scale of a range is found, and all coordinates lie in the range with it. -/
theorem Spannable.exists_scale (h : Spannable lo hi) :
    ∃ scale, Spans lo hi scale ∧ Lowered lo hi ((hi - lo) / Drawable.topFraction) scale ∧
      ∀ w, lo ≤ place lo scale w ∧ place lo scale w ≤ hi := by
  obtain ⟨l, hlo⟩ := exists_denotes h.lo_finite
  obtain ⟨u, hhi⟩ := exists_denotes h.hi_finite
  have hwidth : 0 ≤ u - l := sub_nonneg.mpr ((hlo.le_iff hhi).mp h.le)
  obtain ⟨s, hstart, hnonneg⟩ := exists_denotes_div (hhi.sub hlo) hwidth h.scale_finite
  obtain ⟨hlowered, r, hscale, hr⟩ := fit_lowered hlo hhi h.le _ hstart hnonneg le_rfl
  refine ⟨_, ⟨h.le, ?_⟩, hlowered, fun w => ?_⟩
  · have hfinite : (Scalar.isFinite lo && Scalar.isFinite hi &&
        Scalar.isFinite ((hi - lo) / Drawable.topFraction)) = true := by
      rw [Bool.and_eq_true, Bool.and_eq_true]
      exact ⟨⟨h.lo_finite, h.hi_finite⟩, h.scale_finite⟩
    exact if_pos hfinite
  · exact place_bounds hlo hhi hscale hr hlowered.fits_fitted w

end Scale

/-! ## Points -/

/-- Points that are drawn from a range take one word for each coordinate, in order, and cut what is
drawn as one long point. All coordinates lie in the range. -/
structure Partitions {γ : Type} (next : γ → UInt64 × γ) (n : ℕ) (lo hi : Float) (count : ℕ) (g : γ)
    (points : List (Vec Float)) : Prop where
  drawn : drawPoints next n lo hi count g = (.ok points, after next (count * n) g)
  length : points.length = count
  dimension : ∀ x ∈ points, x.length = n
  flat : drawPoint next (count * n) lo hi g = (.ok points.flatten, after next (count * n) g)
  coordinates : ∃ scale, Lowered lo hi ((hi - lo) / Drawable.topFraction) scale ∧
    points.flatten =
      (words next (count * n) g).map fun word => Drawable.fraction word * scale + lo
  range : ∀ x ∈ points, ∀ a ∈ x, lo ≤ a ∧ a ≤ hi
  constant : (lo == hi) = true → ∀ x ∈ points, ∀ a ∈ x, (a == lo) = true

theorem exists_partitions {γ : Type} (next : γ → UInt64 × γ) {lo hi : Float} (h : Spannable lo hi)
    (n count : ℕ) (g : γ) : ∃ points, Partitions next n lo hi count g points := by
  obtain ⟨scale, hspans, hlowered, hbounds⟩ := h.exists_scale
  obtain ⟨points, hdrawn, hcuts⟩ := exists_drawPoints hspans n count g
  have hrange : ∀ x ∈ points, ∀ a ∈ x, lo ≤ a ∧ a ≤ hi := by
    intro x hx a ha
    have hmem : a ∈ points.flatten := List.mem_flatten_of_mem hx ha
    rw [hcuts.flatten] at hmem
    obtain ⟨w, -, rfl⟩ := List.mem_map.mp hmem
    exact hbounds w
  refine ⟨points, hdrawn, hcuts.count, hcuts.length, ?flat, ?coordinates, hrange, ?constant⟩
  case flat => rw [drawPoint_eq hspans, hcuts.flatten]
  case coordinates => exact ⟨scale, hlowered, hcuts.flatten⟩
  case constant =>
    intro hconstant x hx a ha
    exact beq_of_le_of_le (hrange x hx a ha).1 (hrange x hx a ha).2 hconstant

/-- Start points partition one stream of words and stay in their range. A request can be split, and
one for an empty range draws nothing. -/
theorem points_partition :
    (∀ {γ : Type} (next : γ → UInt64 × γ) (lo hi : Float), Spannable lo hi →
      ∀ (n count : ℕ) (g : γ), ∃ points, Partitions next n lo hi count g points) ∧
    (∀ {γ : Type} (next : γ → UInt64 × γ) (n : ℕ) (lo hi : Float) (count₁ count₂ : ℕ),
      drawPoints next n lo hi (count₁ + count₂) = do
        let first ← drawPoints next n lo hi count₁
        let rest ← drawPoints next n lo hi count₂
        return first ++ rest) ∧
    ∀ {γ : Type} (next : γ → UInt64 × γ) (n : ℕ) (lo hi : Float), hi < lo →
      ∀ (count : ℕ) (g : γ), 0 < count →
        drawPoints next n lo hi count g = (.error (.empty lo hi), g) := by
  refine ⟨fun next lo hi h => exists_partitions next h, drawPoints_add, ?_⟩
  intro γ next n lo hi hempty count g hcount
  have hnot : ¬ lo ≤ hi := fun hle =>
    Scalar.Ordered.lt_irrefl lo (Scalar.Ordered.lt_of_le_of_lt hle hempty)
  exact drawPoints_of_empty hnot hcount g

/-- The range that serves when none is given, and the same range the wrong way round. -/
theorem points_partition_default :
    Spannable (-10.0) 10.0 ∧ (-10.0 : Float) < 10.0 ∧
    (∃ points, Partitions WordSource.next 3 (-10.0) 10.0 2 (.splitMix 7) points) ∧
    drawPoints WordSource.next 3 (10.0 : Float) (-10.0) 2 (.splitMix 7) =
      (.error (.empty 10.0 (-10.0)), .splitMix 7) := by
  have hspannable : Spannable (-10.0) 10.0 :=
    ⟨by decide +kernel, by decide +kernel, by decide +kernel, by decide +kernel⟩
  have hlt : (-10.0 : Float) < 10.0 := by decide +kernel
  exact ⟨hspannable, hlt, points_partition.1 WordSource.next _ _ hspannable 3 2 (.splitMix 7),
    points_partition.2.2 WordSource.next 3 _ _ hlt 2 (.splitMix 7) (by decide)⟩

end Sampling

end Downhill
