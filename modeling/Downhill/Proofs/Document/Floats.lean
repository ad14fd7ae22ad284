import Mathlib
import Downhill.Proofs.Document.Literals
import Downhill.Proofs.Number.Bits
import Downhill.Proofs.Number.Positional
import Downhill.Proofs.Number.Reading

/-! # Floats as literals

A float is printed with its shortest digits, and the literal is read back as the same float.
-/

namespace Downhill.Toml

open Decimal (Parts)

namespace Literal

/-! ## Literals with a point -/

theorem not_mark_of_digit {c : Char} (h : c.isDigit = true) : isMark c = false := by
  unfold isMark
  rw [Bool.or_eq_false_iff, beq_eq_false_iff_ne, beq_eq_false_iff_ne]
  constructor <;> rintro rfl <;> simp at h

theorem decimal_text (p : Parts) :
    decimal p.text = some (p.digits, -(p.fraction.length : ℤ)) := by
  have hwhole : ∀ c ∈ p.whole, (c != '.' && !isMark c) = true := by
    intro c hc
    have hdigit := p.wholeDigits c hc
    rw [not_mark_of_digit hdigit]
    simp
    rintro rfl
    simp at hdigit
  have hfraction : ∀ c ∈ p.fraction, (!isMark c) = true := by
    intro c hc
    rw [not_mark_of_digit (p.fractionDigits c hc)]
    rfl
  have hspan : p.text.span (fun c => c != '.' && !isMark c) = (p.whole, '.' :: p.fraction) := by
    rw [List.span_eq_takeWhile_dropWhile, Parts.text, List.takeWhile_append_of_pos hwhole,
      List.dropWhile_append_of_pos hwhole]
    simp
  have hspan' : p.fraction.span (fun c => !isMark c) = (p.fraction, []) := by
    rw [List.span_eq_takeWhile_dropWhile, List.takeWhile_eq_self_iff.mpr hfraction,
      List.dropWhile_eq_nil_iff.mpr hfraction]
  unfold decimal
  rw [hspan]
  simp only [hspan', wholePart_eq p.whole_ne_nil p.wholeDigits p.head,
    ungroup_eq p.fraction_ne_nil p.fractionDigits]
  rfl

theorem mem_text {p : Parts} {c : Char} (h : c ∈ p.text) : c.isDigit = true ∨ c = '.' := by
  rw [Parts.text, List.mem_append, List.mem_cons] at h
  rcases h with h | h | h
  · exact .inl (p.wholeDigits c h)
  · exact .inr h
  · exact .inl (p.fractionDigits c h)

/-- A positional number, with a minus if it has one. -/
def signed (negative : Bool) (cs : List Char) : List Char := if negative then '-' :: cs else cs

variable {p : Parts} {x : Float}

theorem sign_signed (p : Parts) (negative : Bool) :
    sign (signed negative p.text) = (negative, p.text) := by
  cases negative with
  | true => rfl
  | false =>
    change sign p.text = _
    unfold sign
    split
    · rename_i heq
      simpa using mem_text (p := p) (c := '+') (by simp [heq])
    · rename_i heq
      simpa using mem_text (p := p) (c := '-') (by simp [heq])
    · rfl

theorem real_signed
    (hx : Decimal.nearestDouble (natural 10 p.digits) (-(p.fraction.length : ℤ)) = x)
    (hfinite : x.isInf = false) (negative : Bool) :
    real (signed negative p.text) = some (if negative then -x else x) := by
  have hpoint : '.' ∈ p.text := by simp [Parts.text]
  have hinf : p.text ≠ ['i', 'n', 'f'] := by
    intro heq
    simp [heq] at hpoint
  have hnan : p.text ≠ ['n', 'a', 'n'] := by
    intro heq
    simp [heq] at hpoint
  unfold real
  rw [sign_signed]
  simp only [beq_eq_false_iff_ne.mpr hinf, beq_eq_false_iff_ne.mpr hnan, decimal_text, hx, hfinite]
  cases negative <;> rfl

/-! ## Nothing else -/

theorem ungroup_eq_none {isDigit : Char → Bool} {c : Char} (hc : isDigit c = false)
    (hmark : c ≠ '_') {cs : List Char} (h : c ∈ cs) : ungroup isDigit cs = none := by
  fun_induction ungroup isDigit cs <;> grind

theorem integer_of_point {cs : List Char} (h : '.' ∈ cs) : integer cs = none := by
  have hungroup (isDigit : Char → Bool) (hpoint : isDigit '.' = false) {cs : List Char}
      (h : '.' ∈ cs) : ungroup isDigit cs = none := ungroup_eq_none hpoint (by decide) h
  unfold integer
  split
  · rw [hungroup _ rfl (by simpa using h), Option.bind_none]
  · rw [hungroup _ rfl (by simpa using h), Option.bind_none]
  · rw [hungroup _ rfl (by simpa using h), Option.bind_none]
  · have hsign : '.' ∈ (sign cs).2 := by
      unfold sign
      split <;> simp_all
    have hwhole : wholePart (sign cs).2 = none := by
      rw [wholePart, hungroup _ rfl hsign]
    simp only [hwhole, Option.bind_none]

theorem isMoment_signed (p : Parts) (negative : Bool) :
    isMoment (signed negative p.text) = false := by
  have hminus : '-' ∉ p.text := fun h => by simpa using mem_text h
  have hcolon : ':' ∉ p.text := fun h => by simpa using mem_text h
  have hdate : date (signed negative p.text) = none := by
    unfold date
    split
    · cases negative <;> simp_all [signed]
    · rfl
  have htime : time (signed negative p.text) = none := by
    unfold time
    split
    · cases negative <;> simp_all [signed]
    · rfl
  simp [isMoment, hdate, htime]

/-- A positional number is read as the double nearest to it. -/
theorem item_signed
    (hx : Decimal.nearestDouble (natural 10 p.digits) (-(p.fraction.length : ℤ)) = x)
    (hfinite : x.isInf = false) (negative : Bool) :
    item (signed negative p.text) = some (.real (if negative then -x else x)) := by
  have hpoint : '.' ∈ signed negative p.text := by
    cases negative <;> simp [signed, Parts.text]
  have hword : 'e' ∉ signed negative p.text := by
    have htext : 'e' ∉ p.text := fun h => by simpa using mem_text h
    cases negative <;> simp [signed, htext]
  rw [item_of_not_mem hword (isMoment_signed p negative), integer_of_point hpoint,
    real_signed hx hfinite]
  rfl

theorem isLiteralChar_signed (p : Parts) (negative : Bool) :
    ∀ c ∈ signed negative p.text, isLiteralChar c = true := by
  have htext : ∀ c ∈ p.text, isLiteralChar c = true := by
    intro c hc
    rcases mem_text hc with hdigit | rfl
    · exact isLiteralChar_of_digit hdigit
    · rfl
  cases negative with
  | false => exact htext
  | true =>
    intro c hc
    rcases List.mem_cons.mp hc with rfl | hc
    · rfl
    · exact htext c hc

end Literal

/-! ## Doubles -/

open FloatGrid Float.Model Float.Model.UnpackedFloat

theorem pointed_signed (negative : Bool) (cs : List Char) :
    Decimal.pointed (Literal.signed negative cs) =
      Literal.signed negative (Decimal.pointed cs) := by
  cases negative with
  | false => rfl
  | true =>
    simp only [Literal.signed, Decimal.pointed, if_true, List.mem_cons]
    split <;> simp_all

/-- A finite double is printed in positional notation, after its sign. -/
theorem real_toList {x : Float} (hnan : x.isNaN = false) (hinf : x.isInf = false) :
    (Printer.real x).toList = Literal.signed (Decimal.isNegative x) (Decimal.pointed
      (if x == 0.0 then Decimal.zero.plain
        else (Decimal.dyadicOfBits x.toBits).shortest.plain)) := by
  have hplain : (Decimal.plainText x).toList = Literal.signed (Decimal.isNegative x)
      (if x == 0.0 then Decimal.zero.plain
        else (Decimal.dyadicOfBits x.toBits).shortest.plain) := by
    simp only [Decimal.plainText, Decimal.spell, hnan, hinf, Bool.false_eq_true, if_false,
      String.toList_ofList, Literal.signed]
  rw [← pointed_signed, ← hplain]
  simp only [Printer.real, Decimal.pointed, hnan, hinf, Bool.false_or, String.contains_char_eq,
    Bool.false_eq_true, if_false, decide_eq_true_eq]
  split
  · rfl
  · exact String.toList_append

theorem real_toList_of_finite {x : Float} {s : Sign} {m : ℕ} {e : ℤ} {hm : 0 < m}
    (h : x.toModel.unpack = .finite s m e hm) : (Printer.real x).toList =
      Literal.signed (Decimal.isNegative x)
        (Decimal.pointed (Decimal.dyadicOfBits x.toBits).shortest.plain) := by
  have hnan : x.isNaN = false := by
    rw [Decimal.isNaN_eq_unpack, h]
    rfl
  have hinf : x.isInf = false := by
    rw [Decimal.isInf_eq_unpack, h]
    rfl
  have hzero : (x == 0.0) = false := by
    change x.toModel.unpack.beq _ = false
    rw [h]
    cases s <;> rfl
  rw [real_toList hnan hinf, hzero, if_neg (by simp)]

/-- Three decimal digits hold less than ten bits. -/
theorem log2_lt {n k : ℕ} (hn : 0 < n) (h : n < 10 ^ k) : n.log2 < 10 * ((k + 2) / 3) := by
  refine (Nat.log2_lt hn.ne').mpr (h.trans_le ?_)
  calc 10 ^ k ≤ 10 ^ (3 * ((k + 2) / 3)) := Nat.pow_le_pow_right (by norm_num) (by omega)
    _ = (10 ^ 3) ^ ((k + 2) / 3) := pow_mul _ _ _
    _ ≤ (2 ^ 10) ^ ((k + 2) / 3) := Nat.pow_le_pow_left (by norm_num) _
    _ = 2 ^ (10 * ((k + 2) / 3)) := (pow_mul _ _ _).symm

/-- The literal of a finite double apart from its sign is read as the double without it. -/
theorem exists_parts_of_finite {x : Float} {s : Sign} {m : ℕ} {e : ℤ} {hm : 0 < m}
    (h : x.toModel.unpack = .finite s m e hm) :
    ∃ p : Parts, (Printer.real x).toList = Literal.signed (Decimal.isNegative x) p.text ∧
      Holds (Decimal.nearestDouble (Literal.natural 10 p.digits) (-(p.fraction.length : ℤ)))
        m e := by
  obtain ⟨hgrid, hexp⟩ := onGrid_of_unpack h
  obtain ⟨-, hdyadic⟩ := Decimal.dyadicOfBits_eq h
  have hregular : Dyadic.Regular ⟨m, e, decide (m = 2 ^ 52 ∧ e ≠ -1074)⟩ :=
    ⟨hgrid, hm, decide_eq_true_iff⟩
  obtain ⟨c, f, hshortest, hrounds, hc, hfew, hnear⟩ := hregular.shortest_spec hexp
  obtain ⟨p, htext, hvalue, hlength⟩ := (Decimal.spells_ofScaled hc f).exists_parts
  have hdigits : Literal.Digits p.digits := p.wholeDigits.append p.fractionDigits
  have hlong : p.digits.length ≤ 359 := by
    have htrim := Decimal.length_ofScaled_le c f
    change _ ≤ _ + (f + Decimal.digitCount c).natAbs + 1 at hlength
    omega
  have hfraction : p.fraction.length ≤ p.digits.length := by simp [Parts.digits]
  rw [← hvalue, Parts.value] at hrounds
  have hpos : 0 < Literal.natural 10 p.digits := by
    refine Nat.pos_of_ne_zero fun hzero => ?_
    have := (hrounds.bounds hm).1
    simp [hzero] at this
  refine ⟨p, ?_, holds_nearestDouble hgrid hexp hm hpos (by omega) ?_ hrounds⟩
  · rw [real_toList_of_finite h, hdyadic, hshortest, htext]
  · have := log2_lt hpos (Literal.natural_lt hdigits)
    omega

theorem unpack_neg (x : Float) :
    (-x).toModel.unpack = (Float.Model.pack x.toModel.unpack.neg).unpack := rfl

theorem item_real_of_finite {x : Float} {s : Sign} {m : ℕ} {e : ℤ} {hm : 0 < m}
    (h : x.toModel.unpack = .finite s m e hm) :
    Literal.item (Printer.real x).toList = some (.real x) := by
  obtain ⟨p, htext, hholds⟩ := exists_parts_of_finite h
  obtain ⟨hsign, -⟩ := Decimal.dyadicOfBits_eq h
  obtain ⟨hm', hy⟩ := id hholds
  have hfinite : (Decimal.nearestDouble (Literal.natural 10 p.digits)
      (-(p.fraction.length : ℤ))).isInf = false := by
    rw [Decimal.isInf_eq_unpack, hy]
    rfl
  rw [htext, Literal.item_signed rfl hfinite]
  congr 2
  apply eq_of_unpack
  rw [h, hsign]
  obtain ⟨hgrid, hexp⟩ := onGrid_of_unpack h
  split
  · rw [unpack_neg, hy]
    exact (unpack_pack_of_onGrid hgrid).trans (if_pos hexp)
  · exact hy

/-- The characters of a literal, and what it is read as. -/
structure Reproduces (literal : List Char) (x : Float) : Prop where
  chars : ∀ c ∈ literal, Literal.isLiteralChar c = true
  item : Literal.item literal = some (.real x)

theorem reproduces_real {x : Float} (h : x.isNaN = false) :
    Reproduces (Printer.real x).toList x := by
  rcases hx : x.toModel.unpack with s | _ | s | ⟨s, m, e, hm⟩
  · cases s with
    | positive =>
      obtain rfl : x = 1.0 / 0.0 := eq_of_unpack (hx.trans rfl)
      exact ⟨List.all_eq_true.mp rfl, rfl⟩
    | negative =>
      obtain rfl : x = -1.0 / 0.0 := eq_of_unpack (hx.trans rfl)
      exact ⟨List.all_eq_true.mp rfl, rfl⟩
  · rw [Decimal.isNaN_eq_unpack, hx] at h
    cases h
  · cases s with
    | positive =>
      obtain rfl : x = 0.0 := eq_of_unpack (hx.trans rfl)
      have htext : (Printer.real 0.0).toList = ['0', '.', '0'] := real_toList rfl rfl
      rw [htext]
      exact ⟨List.all_eq_true.mp rfl, rfl⟩
    | negative =>
      obtain rfl : x = -0.0 := eq_of_unpack (hx.trans rfl)
      have htext : (Printer.real (-0.0)).toList = ['-', '0', '.', '0'] := real_toList rfl rfl
      rw [htext]
      exact ⟨List.all_eq_true.mp rfl, rfl⟩
  · obtain ⟨p, htext, -⟩ := exists_parts_of_finite hx
    refine ⟨?_, item_real_of_finite hx⟩
    rw [htext]
    exact Literal.isLiteralChar_signed p _

/-- A float that is a number is read back from its literal. -/
theorem spells_real {x : Float} (h : x.isNaN = false) : Spells (Printer.real x) (.real x) := by
  obtain ⟨hchars, hitem⟩ := reproduces_real h
  refine spells_of_item ?_ hchars hitem
  intro hnil
  rw [hnil] at hitem
  cases hitem

end Downhill.Toml
