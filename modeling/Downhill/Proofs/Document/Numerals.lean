import Mathlib
import Downhill.Toml.Literal

/-! # Decimal numerals

A plain run of decimal digits is read as the number that it spells. The digits of a number are such
a run, and only zero starts with a zero.
-/

namespace Downhill.Toml.Literal

/-- Decimal digits and nothing else. -/
def Digits (cs : List Char) : Prop := ∀ c ∈ cs, c.isDigit = true

-- The characters are few, their type is not: no search over the type decides this.
instance (cs : List Char) : Decidable (Digits cs) := List.decidableBAll _ cs

theorem Digits.append {cs ds : List Char} (h : Digits cs) (h' : Digits ds) : Digits (cs ++ ds) :=
  fun c hc => (List.mem_append.mp hc).elim (h c) (h' c)

theorem Digits.of_append {cs ds : List Char} (h : Digits (cs ++ ds)) : Digits cs ∧ Digits ds :=
  ⟨fun c hc => h c (by simp [hc]), fun c hc => h c (by simp [hc])⟩

theorem Digits.not_mem {cs : List Char} (h : Digits cs) {c : Char} (hc : c.isDigit = false) :
    c ∉ cs := by
  intro hmem
  simp [h c hmem] at hc

theorem digits_replicate_zero (n : Nat) : Digits (List.replicate n '0') := by
  intro c hc
  rw [List.eq_of_mem_replicate hc]
  rfl

theorem digits_toDigits (n : Nat) : Digits (Nat.toDigits 10 n) :=
  fun _ hc => Nat.isDigit_of_mem_toDigits (by decide) (by decide) hc

/-- A number does not start with a zero, unless it is zero. -/
theorem head_toDigits {n : Nat} (h : 0 < n) : (Nat.toDigits 10 n).head? ≠ some '0' := by
  induction n using Nat.strongRecOn with
  | ind n ih =>
    rw [Nat.toDigits_eq_if (by decide)]
    split
    · rename_i hsmall
      have hone : ∀ k < 10, 0 < k → [k.digitChar].head? ≠ some '0' := by decide
      exact hone n hsmall h
    · have hhead := ih (n / 10) (by omega) (by omega)
      obtain ⟨c, cs, htail⟩ :=
        List.exists_cons_of_ne_nil (Nat.toDigits_ne_nil (n := n / 10) (b := 10))
      rw [htail] at hhead ⊢
      simpa using hhead

/-! ## Reading digits -/

theorem ungroup_eq {cs : List Char} (hne : cs ≠ []) (h : Digits cs) :
    ungroup Char.isDigit cs = some cs := by
  induction cs with
  | nil => exact absurd rfl hne
  | cons c cs ih =>
    have hc : c.isDigit = true := h c (by simp)
    cases cs with
    | nil => simp [ungroup, hc]
    | cons d cs =>
      have hmark : d ≠ '_' := by
        rintro rfl
        exact absurd (h '_' (by simp)) (by decide)
      have htail := ih (by simp) fun x hx => h x (by simp [hx])
      rw [ungroup.eq_4 _ _ _ (by simp) (by simp [hmark]), if_pos hc, htail]
      rfl

theorem wholePart_eq {cs : List Char} (hne : cs ≠ []) (h : Digits cs)
    (hhead : cs = ['0'] ∨ cs.head? ≠ some '0') : wholePart cs = some cs := by
  unfold wholePart
  rw [ungroup_eq hne h]
  split
  · rename_i heq
    cases heq
    simp at hhead
  · rfl

theorem natural_eq {cs : List Char} (h : Digits cs) : natural 10 cs = Nat.ofDigitChars 10 cs 0 := by
  unfold natural
  generalize 0 = n
  induction cs generalizing n with
  | nil => rw [Nat.ofDigitChars_nil, List.foldl_nil]
  | cons c cs ih =>
    have hvalue : digitValue c = c.toNat - '0'.toNat := by simp [digitValue, h c (by simp)]
    rw [List.foldl_cons, ih (fun d hd => h d (by simp [hd])), Nat.ofDigitChars_cons, hvalue,
      Nat.mul_comm]

theorem natural_toDigits (n : Nat) : natural 10 (Nat.toDigits 10 n) = n := by
  rw [natural_eq (digits_toDigits n), Nat.ofDigitChars_ten_toDigits]

theorem natural_append {cs ds : List Char} (h : Digits cs) (h' : Digits ds) :
    natural 10 (cs ++ ds) = natural 10 cs * 10 ^ ds.length + natural 10 ds := by
  rw [natural_eq (h.append h'), natural_eq h, natural_eq h', Nat.ofDigitChars_append,
    Nat.ofDigitChars_eq_ofDigitChars_zero, Nat.mul_comm]

theorem digitValue_le {c : Char} (h : c.isDigit = true) : digitValue c ≤ 9 := by
  simp [Char.isDigit, UInt32.le_iff_toNat_le] at h
  simp [digitValue, Char.isDigit, UInt32.le_iff_toNat_le, h]

theorem natural_lt {cs : List Char} (h : Digits cs) : natural 10 cs < 10 ^ cs.length := by
  induction cs with
  | nil => decide
  | cons c cs ih =>
    have hc : Digits [c] := by simpa [Digits] using h c (by simp)
    have hcs : Digits cs := fun d hd => h d (by simp [hd])
    have hvalue : natural 10 [c] ≤ 9 := by simpa [natural] using digitValue_le (h c (by simp))
    have hsplit := natural_append hc hcs
    have hstep := Nat.mul_le_mul_right (10 ^ cs.length) hvalue
    have := ih hcs
    rw [List.singleton_append] at hsplit
    rw [List.length_cons, Nat.pow_succ]
    omega

theorem natural_replicate_zero (n : Nat) : natural 10 (List.replicate n '0') = 0 := by
  rw [natural_eq (digits_replicate_zero n), Nat.ofDigitChars_replicate_zero, Nat.mul_zero]

end Downhill.Toml.Literal
