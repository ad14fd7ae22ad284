import Mathlib
import Downhill.Proofs.Document.Lines
import Downhill.Proofs.Document.Numerals

/-! # Literals in their lines

A literal is read up to the end of its line, a word up to its closing quote. A count that fits into
an integer is read back as it was.
-/

namespace Downhill.Toml

open Scan

/-! ## Plain literals -/

theorem Literal.split_line {literal : List Char} (h : ∀ c ∈ literal, isLiteralChar c = true)
    (rest : List Char) : split (literal ++ '\n' :: rest) = (literal, '\n' :: rest) := by
  unfold split
  rw [List.span_eq_takeWhile_dropWhile, List.takeWhile_append_of_pos h,
    List.dropWhile_append_of_pos h]
  have htake : ('\n' :: rest).takeWhile isLiteralChar = [] := rfl
  have hdrop : ('\n' :: rest).dropWhile isLiteralChar = '\n' :: rest := rfl
  simp only [htake, hdrop, List.append_nil]
  split <;> simp_all

/-- What starts neither an array nor a table is a leaf. -/
theorem takes_value {text rest : List Char} {item : Item}
    (hbracket : (text ++ rest).head? ≠ some '[') (hbrace : (text ++ rest).head? ≠ some '\x7b')
    (h : Takes Value.leaf text item rest) (depth : Nat) : Takes (value depth) text item rest := by
  cases depth with
  | zero => exact h
  | succ depth =>
    refine Takes.after (takes_peek _) ?_
    split
    · exact absurd ‹_› hbracket
    · exact absurd ‹_› hbrace
    · exact h

/-- A literal without quotes spells the item that it is read as. -/
theorem spells_of_item {literal : String} {item : Item} (hne : literal.toList ≠ [])
    (hchars : ∀ c ∈ literal.toList, Literal.isLiteralChar c = true)
    (hitem : Literal.item literal.toList = some item) : Spells literal item := by
  obtain ⟨c, cs, hliteral⟩ := List.exists_cons_of_ne_nil hne
  have hc : Literal.isLiteralChar c = true := hchars c (by simp [hliteral])
  have hother (d : Char) (hd : Literal.isLiteralChar d = false) : c ≠ d := by
    rintro rfl
    simp [hc] at hd
  constructor
  · rw [hliteral]
    simp [isBlank, hother ' ' rfl, hother '\t' rfl]
  · intro depth rest
    have hhead : (literal.toList ++ '\n' :: rest).head? = some c := by simp [hliteral]
    have hleaf : Takes Value.leaf literal.toList item ('\n' :: rest) := by
      refine Takes.after (takes_peek _) ?_
      rw [hhead]
      split
      · exact absurd (Option.some.inj ‹_›) (hother _ rfl)
      · exact absurd (Option.some.inj ‹_›) (hother _ rfl)
      · simp [Takes, Literal.split_line hchars, hitem]
    refine takes_value ?_ ?_ hleaf depth <;> rw [hhead]
    · simpa using hother '[' rfl
    · simpa using hother '\x7b' rfl

/-! ## Words -/

theorem Quoted.isPlain_of_bare {c : Char} (h : Key.isBareChar c = true) : isPlain c = true := by
  have hdelete : c ≠ '\x7f' := Key.ne_of_bare h rfl
  have hspace : ' ' ≤ c := by
    simp [Key.isBareChar, Char.isAlphanum, Char.isAlpha, Char.isUpper, Char.isLower, Char.isDigit,
      Char.le_def, UInt32.le_iff_toNat_le] at h ⊢
    rcases h with (((h | h) | h) | rfl) | rfl <;> first | omega | decide
  simp [isPlain, hspace, hdelete]

theorem Quoted.takes_basicPiece {c : Char} (h : Key.isBareChar c = true) (rest : List Char) :
    Takes basicPiece [c] ([c], true) rest := by
  unfold Takes basicPiece
  rw [List.cons_append, List.nil_append]
  split
  · simp_all [Key.isBareChar]
  · simp_all [Key.isBareChar]
  · simp_all [isPlain_of_bare]
  · simp_all

theorem Quoted.steps_basicPiece {cs : List Char} (h : ∀ c ∈ cs, Key.isBareChar c = true)
    (rest : List Char) :
    Steps basicPiece rest (cs ++ ['"']) (cs.map (fun c => [c]) ++ [[]]) := by
  induction cs with
  | nil => exact .last rfl
  | cons c cs ih =>
    have hpiece := takes_basicPiece (h c (by simp)) (cs ++ ['"'] ++ rest)
    exact .more (s := [c]) (by simp) hpiece (ih fun d hd => h d (by simp [hd]))

theorem Quoted.takes_pieces {text : String} (h : Key.IsBare text) (rest : List Char) :
    Takes (pieces basicPiece) (text.toList ++ ['"']) text rest := by
  refine (steps_basicPiece h.2 rest).takes_repeated.before ?_
  have hflat : String.ofList (text.toList.map (fun c => [c]) ++ [[]]).flatten = text := by
    simp [← List.flatMap_def]
  rw [hflat]
  exact takes_pure text rest

theorem Quoted.takes_text {text : String} (h : Key.IsBare text) (rest : List Char) :
    Takes Quoted.text (Printer.word text).toList text rest := by
  obtain ⟨c, cs, hchars, hc⟩ := h.exists_cons
  have hword : (Printer.word text).toList ++ rest = '"' :: (text.toList ++ ['"'] ++ rest) := by
    simp [Printer.word]
  unfold Takes Quoted.text
  rw [hword]
  split
  · rename_i heq
    simp [hchars, Key.ne_of_bare hc (d := '"') rfl] at heq
  · rename_i heq
    simp at heq
  · exact takes_pieces h rest

/-- A word of the characters of bare keys spells itself. -/
theorem spells_word {text : String} (h : Key.IsBare text) :
    Spells (Printer.word text) (.string text) := by
  have hword : (Printer.word text).toList = '"' :: (text.toList ++ ['"']) := by
    simp [Printer.word]
  refine ⟨by simp [hword, isBlank], fun depth rest => ?_⟩
  refine takes_value (by simp [hword]) (by simp [hword]) ?_ depth
  refine Takes.after (takes_peek _) ?_
  rw [hword, List.cons_append, List.head?_cons, ← hword]
  exact (Quoted.takes_text h _).before (takes_pure _ _)

/-! ## Counts -/

theorem Literal.isMoment_of_digits {cs : List Char} (h : Digits cs) : isMoment cs = false := by
  have hdate : date cs = none := by
    unfold date
    split
    · exact absurd (by simp) (h.not_mem (c := '-') rfl)
    · rfl
  have htime : time cs = none := by
    unfold time
    split
    · exact absurd (by simp) (h.not_mem (c := ':') rfl)
    · rfl
  simp [isMoment, hdate, htime]

theorem Literal.integer_of_digits {cs : List Char} (hne : cs ≠ []) (h : Digits cs)
    (hhead : cs = ['0'] ∨ cs.head? ≠ some '0') : integer cs = inRange (natural 10 cs) := by
  have hsign : sign cs = (false, cs) := by
    unfold sign
    split
    · exact absurd (by simp) (h.not_mem (c := '+') rfl)
    · exact absurd (by simp) (h.not_mem (c := '-') rfl)
    · rfl
  unfold integer
  split
  · exact absurd (by simp) (h.not_mem (c := 'x') rfl)
  · exact absurd (by simp) (h.not_mem (c := 'o') rfl)
  · exact absurd (by simp) (h.not_mem (c := 'b') rfl)
  · rw [hsign]
    change (wholePart cs).bind (fun ds => inRange (natural 10 ds)) = _
    rw [wholePart_eq hne h hhead, Option.bind_some]

theorem Literal.isLiteralChar_of_digit {c : Char} (h : c.isDigit = true) :
    isLiteralChar c = true := by
  simp [isLiteralChar, Char.isAlphanum, h]

/-- A literal without the last letter of the truth values is a number or a moment. -/
theorem Literal.item_of_not_mem {cs : List Char} (h : 'e' ∉ cs) (hmoment : isMoment cs = false) :
    item cs = match integer cs with
      | some n => some (.integer n)
      | none => (real cs).map .real := by
  have htrue : cs ≠ ['t', 'r', 'u', 'e'] := by
    rintro rfl
    exact h (by decide)
  have hfalse : cs ≠ ['f', 'a', 'l', 's', 'e'] := by
    rintro rfl
    exact h (by decide)
  unfold item
  rw [if_neg (by simpa using htrue), if_neg (by simpa using hfalse), hmoment]
  rfl

theorem Literal.item_of_digits {cs : List Char} (hne : cs ≠ []) (h : Digits cs)
    (hhead : cs = ['0'] ∨ cs.head? ≠ some '0') (hrange : natural 10 cs < 0x8000000000000000) :
    item cs = some (.integer (natural 10 cs)) := by
  have hinRange : inRange (natural 10 cs) = some (natural 10 cs : Int) := by
    unfold inRange
    rw [if_pos (by omega)]
  rw [item_of_not_mem (h.not_mem rfl) (isMoment_of_digits h), integer_of_digits hne h hhead,
    hinRange]

/-- A count that is printed at all is read back. -/
theorem spells_count {n : Nat} {literal : String} (h : Printer.count? n = some literal) :
    Spells literal (.integer n) := by
  unfold Printer.count? at h
  split at h
  · rename_i hrange
    obtain rfl := Option.some.inj h
    have hdigits : (toString n).toList = Nat.toDigits 10 n := by
      rw [Nat.toString_eq_ofList_toDigits, String.toList_ofList]
    have hhead : Nat.toDigits 10 n = ['0'] ∨ (Nat.toDigits 10 n).head? ≠ some '0' := by
      rcases Nat.eq_zero_or_pos n with rfl | hpos
      · exact .inl rfl
      · exact .inr (Literal.head_toDigits hpos)
    have hitem := Literal.item_of_digits Nat.toDigits_ne_nil (Literal.digits_toDigits n) hhead
      (by rwa [Literal.natural_toDigits])
    rw [Literal.natural_toDigits] at hitem
    refine spells_of_item ?_ ?_ ?_ <;> rw [hdigits]
    · exact Nat.toDigits_ne_nil
    · exact fun c hc => Literal.isLiteralChar_of_digit (Literal.digits_toDigits n c hc)
    · exact hitem
  · cases h

end Downhill.Toml
