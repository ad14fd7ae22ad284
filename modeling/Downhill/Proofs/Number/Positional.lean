import Mathlib
import Downhill.Decimal.Text
import Downhill.Proofs.Document.Numerals
import Downhill.Proofs.Number.Shortest

/-! # Positional notation

Digits are laid out around a decimal point without a change of their number: zeros fill the places
up to the point, and a whole number gets one place.
-/

namespace Downhill

open Toml.Literal

namespace Decimal

/-! ## Trimmed digits -/

theorem trim_spec (ds : List Char) : ∃ z, ds = trim ds ++ List.replicate z '0' := by
  refine ⟨(ds.reverse.takeWhile fun c => c == '0').length, ?_⟩
  have hzeros : (ds.reverse.takeWhile fun c => c == '0').reverse =
      List.replicate (ds.reverse.takeWhile fun c => c == '0').length '0' := by
    rw [List.eq_replicate_iff]
    refine ⟨List.length_reverse, fun c hc => ?_⟩
    simpa using List.mem_takeWhile_imp (List.mem_reverse.mp hc)
  rw [← hzeros, trim, ← List.reverse_append, List.takeWhile_append_dropWhile, List.reverse_reverse]

/-- The digits of a number, from the leading one on. -/
structure Spells (d : Decimal) (q : ℚ) : Prop where
  digits : Digits d.digits
  ne_nil : d.digits ≠ []
  head : d.digits.head? ≠ some '0'
  value : (natural 10 d.digits : ℚ) * 10 ^ (d.point - d.digits.length) = q

theorem spells_ofScaled {c : ℕ} (hc : 0 < c) (f : ℤ) : (ofScaled c f).Spells (c * 10 ^ f) := by
  have hofScaled : ofScaled c f = ⟨trim (digitsOf c), f + digitCount c⟩ := rfl
  obtain ⟨z, hz⟩ := trim_spec (digitsOf c)
  have hdigits : Digits (digitsOf c) := digits_toDigits c
  have hvalue : natural 10 (digitsOf c) = c := natural_toDigits c
  have hhead : (digitsOf c).head? ≠ some '0' := head_toDigits hc
  rw [hofScaled]
  generalize trim (digitsOf c) = ds at hz ⊢
  have hlength : digitCount c = ds.length + z := by
    rw [digitCount, hz, List.length_append, List.length_replicate]
  rw [hz] at hdigits hvalue hhead
  rw [natural_append hdigits.of_append.1 hdigits.of_append.2, natural_replicate_zero, add_zero,
    List.length_replicate] at hvalue
  have hne : ds ≠ [] := by
    rintro rfl
    simp [natural] at hvalue
    omega
  refine ⟨hdigits.of_append.1, hne, ?_, ?_⟩
  · obtain ⟨d, ds, rfl⟩ := List.exists_cons_of_ne_nil hne
    simpa using hhead
  · have hexp : f + (digitCount c : ℤ) - ds.length = z + f := by
      rw [hlength]
      push_cast
      ring
    simp only [hexp]
    rw [zpow_add₀ (by norm_num), zpow_natCast, ← mul_assoc]
    congr 1
    exact_mod_cast hvalue

theorem length_ofScaled_le (c : ℕ) (f : ℤ) : (ofScaled c f).digits.length ≤ digitCount c := by
  obtain ⟨z, hz⟩ := trim_spec (digitsOf c)
  have hlength := congrArg List.length hz
  rw [List.length_append] at hlength
  exact le_of_le_of_eq (Nat.le_add_right _ _) hlength.symm

/-! ## Positional notation -/

/-- A whole part and a fraction, as they stand around the point. -/
structure Parts where
  whole : List Char
  fraction : List Char
  wholeDigits : Digits whole
  fractionDigits : Digits fraction
  whole_ne_nil : whole ≠ []
  fraction_ne_nil : fraction ≠ []
  /-- No zero in front, except for a single one. -/
  head : whole = ['0'] ∨ whole.head? ≠ some '0'

namespace Parts

def text (p : Parts) : List Char := p.whole ++ '.' :: p.fraction

def digits (p : Parts) : List Char := p.whole ++ p.fraction

def value (p : Parts) : ℚ := natural 10 p.digits / 10 ^ p.fraction.length

end Parts

/-- Positional notation with a point, as documents have it. -/
def pointed (cs : List Char) : List Char := if '.' ∈ cs then cs else cs ++ ['.', '0']

variable {d : Decimal} {q : ℚ}

/-- A small number has its zeros between the point and the digits. -/
theorem Spells.parts_of_nonpos (h : d.Spells q) (hpoint : d.point ≤ 0) :
    ∃ p : Parts, pointed d.plain = p.text ∧ p.value = q ∧
      p.digits.length = d.digits.length + (-d.point).toNat + 1 := by
  have hzeros := digits_replicate_zero (-d.point).toNat
  refine ⟨⟨['0'], List.replicate (-d.point).toNat '0' ++ d.digits, by decide,
    hzeros.append h.digits, by simp, by simp [h.ne_nil], .inl rfl⟩, ?_, ?_, ?_⟩
  · simp [plain, if_pos hpoint, pointed, Parts.text]
  · have hnatural : natural 10 (['0'] ++ (List.replicate (-d.point).toNat '0' ++ d.digits)) =
        natural 10 d.digits := by
      rw [natural_append (by decide) (hzeros.append h.digits), natural_append hzeros h.digits,
        natural_replicate_zero]
      simp [natural, digitValue]
    have hexp : d.point - d.digits.length =
        -(((-d.point).toNat + d.digits.length : ℕ) : ℤ) := by
      omega
    have hvalue := h.value
    rw [hexp, zpow_neg, zpow_natCast] at hvalue
    simp only [Parts.value, Parts.digits, hnatural, List.length_append, List.length_replicate]
    rw [div_eq_mul_inv]
    exact hvalue
  · simp [Parts.digits]
    omega

/-- A whole number has its zeros before the point, and one after it. -/
theorem Spells.parts_of_whole (h : d.Spells q) (hpoint : 0 < d.point)
    (hwhole : d.digits.length ≤ d.point.toNat) :
    ∃ p : Parts, pointed d.plain = p.text ∧ p.value = q ∧ p.digits.length = d.point.toNat + 1 := by
  obtain ⟨z, hz⟩ := Nat.exists_eq_add_of_le hwhole
  have hzeros := digits_replicate_zero z
  have hplain : d.plain = d.digits ++ List.replicate z '0' := by
    simp only [plain, if_neg (not_le.mpr hpoint), if_pos hwhole]
    rw [hz, Nat.add_sub_cancel_left]
  have hnot : '.' ∉ d.digits ++ List.replicate z '0' := (h.digits.append hzeros).not_mem rfl
  obtain ⟨c, cs, hdigits⟩ := List.exists_cons_of_ne_nil h.ne_nil
  refine ⟨⟨d.digits ++ List.replicate z '0', ['0'], h.digits.append hzeros, by decide,
    by simp [h.ne_nil], by simp, .inr ?_⟩, ?_, ?_, ?_⟩
  · simpa [hdigits] using h.head
  · rw [hplain, pointed, if_neg hnot]
    simp [Parts.text]
  · have hnatural : natural 10 (d.digits ++ List.replicate z '0' ++ ['0']) =
        natural 10 d.digits * 10 ^ z * 10 := by
      rw [natural_append (h.digits.append hzeros) (by decide), natural_append h.digits hzeros,
        natural_replicate_zero, List.length_replicate]
      simp [natural, digitValue]
    have hexp : d.point - d.digits.length = z := by omega
    have hvalue := h.value
    rw [hexp, zpow_natCast] at hvalue
    simp only [Parts.value, Parts.digits, hnatural, List.length_singleton, pow_one]
    push_cast
    rw [mul_div_cancel_right₀ _ (by norm_num)]
    exact hvalue
  · simp [Parts.digits]
    omega

/-- Otherwise the point stands among the digits. -/
theorem Spells.parts_of_split (h : d.Spells q) (hpoint : 0 < d.point)
    (hsplit : d.point.toNat < d.digits.length) :
    ∃ p : Parts, pointed d.plain = p.text ∧ p.value = q ∧ p.digits.length = d.digits.length := by
  have hplain : d.plain = d.digits.take d.point.toNat ++ '.' :: d.digits.drop d.point.toNat := by
    simp only [plain, if_neg (not_le.mpr hpoint), if_neg (not_le.mpr hsplit)]
  have hparts : Digits (d.digits.take d.point.toNat ++ d.digits.drop d.point.toNat) := by
    rw [List.take_append_drop]
    exact h.digits
  obtain ⟨c, cs, hdigits⟩ := List.exists_cons_of_ne_nil h.ne_nil
  obtain ⟨k, hk⟩ := Nat.exists_eq_succ_of_ne_zero (by omega : d.point.toNat ≠ 0)
  refine ⟨⟨d.digits.take d.point.toNat, d.digits.drop d.point.toNat, hparts.of_append.1,
    hparts.of_append.2, ?_, ?_, .inr ?_⟩, ?_, ?_, ?_⟩
  · simp [hdigits, hk]
  · simpa using hsplit
  · simpa [hdigits, hk] using h.head
  · simp [hplain, pointed, Parts.text]
  · have hexp : d.point - d.digits.length =
        -((d.digits.length - d.point.toNat : ℕ) : ℤ) := by
      omega
    have hvalue := h.value
    rw [hexp, zpow_neg, zpow_natCast] at hvalue
    simp only [Parts.value, Parts.digits, List.take_append_drop, List.length_drop]
    rw [div_eq_mul_inv]
    exact hvalue
  · simp [Parts.digits]

theorem Spells.exists_parts (h : d.Spells q) :
    ∃ p : Parts, pointed d.plain = p.text ∧ p.value = q ∧
      p.digits.length ≤ d.digits.length + d.point.natAbs + 1 := by
  by_cases hsmall : d.point ≤ 0
  · obtain ⟨p, htext, hvalue, hlength⟩ := h.parts_of_nonpos hsmall
    exact ⟨p, htext, hvalue, by omega⟩
  · by_cases hwhole : d.digits.length ≤ d.point.toNat
    · obtain ⟨p, htext, hvalue, hlength⟩ := h.parts_of_whole (by omega) hwhole
      exact ⟨p, htext, hvalue, by omega⟩
    · obtain ⟨p, htext, hvalue, hlength⟩ := h.parts_of_split (by omega) (by omega)
      exact ⟨p, htext, hvalue, by omega⟩

end Decimal

end Downhill
