import Downhill.Toml.Scan

/-! # What scanners take

A printed text is read back token by token: a scanner takes exactly the characters of its token and
leaves what follows. Such facts chain along the scanners they are put together from.
-/

namespace Downhill.Toml.Scan

variable {β γ : Type}

/-- In front of `rest`, the scanner takes exactly `text` and answers with `answer`. -/
def Takes (scan : Scan β) (text : List Char) (answer : β) (rest : List Char) : Prop :=
  scan (text ++ rest) = some (answer, rest)

/-! ## One after the other -/

theorem takes_pure (b : β) (rest : List Char) : Takes (pure b) [] b rest := rfl

theorem Takes.bind {scan : Scan β} {next : β → Scan γ} {s t rest : List Char} {b : β} {c : γ}
    (h : Takes scan s b (t ++ rest)) (h' : Takes (next b) t c rest) :
    Takes (scan >>= next) (s ++ t) c rest := by
  unfold Takes at *
  rw [List.append_assoc]
  change (scan (s ++ (t ++ rest)) >>= fun p => next p.1 p.2) = _
  rw [h]
  exact h'

/-- A scanner that only looks ahead does not change what is taken. -/
theorem Takes.after {scan : Scan β} {next : β → Scan γ} {t rest : List Char} {b : β} {c : γ}
    (h : Takes scan [] b (t ++ rest)) (h' : Takes (next b) t c rest) :
    Takes (scan >>= next) t c rest := h.bind h'

/-- What comes after the last token may be an answer only. -/
theorem Takes.before {scan : Scan β} {next : β → Scan γ} {s rest : List Char} {b : β} {c : γ}
    (h : Takes scan s b rest) (h' : Takes (next b) [] c rest) :
    Takes (scan >>= next) s c rest := by
  have := Takes.bind (t := []) h h'
  rwa [List.append_nil] at this

/-! ## Tokens -/

theorem takes_peek (cs : List Char) : Takes peek [] cs.head? cs := rfl

theorem takes_rest (cs : List Char) : Takes rest [] cs cs := rfl

theorem takes_char (c : Char) (rest : List Char) : Takes (char c) [c] () rest := by
  simp [Takes, char]

/-- A run ends where the class of its characters does. -/
theorem takes_run {p : Char → Bool} {s rest : List Char} (hs : ∀ c ∈ s, p c = true)
    (hrest : ∀ c ∈ rest.head?, p c = false) : Takes (run p) s s rest := by
  have htake : rest.takeWhile p = [] := by
    cases rest with
    | nil => rfl
    | cons c rest => simp [hrest c rfl]
  have hdrop : rest.dropWhile p = rest := by
    cases rest with
    | nil => rfl
    | cons c rest => simp [hrest c rfl]
  simp [Takes, run, List.takeWhile_append_of_pos hs, List.dropWhile_append_of_pos hs, htake, hdrop]

theorem takes_blanks {s rest : List Char} (hs : ∀ c ∈ s, isBlank c = true)
    (hrest : ∀ c ∈ rest.head?, isBlank c = false) : Takes blanks s () rest :=
  (takes_run hs hrest).before (takes_pure () rest)

theorem takes_trailing (rest : List Char) : Takes trailing ['\n'] () rest := rfl

/-! ## Repetition -/

/-- One step after the other takes its piece of a text; only the last one asks for no more. -/
inductive Steps (step : Scan (β × Bool)) (rest : List Char) : List Char → List β → Prop where
  | last {s : List Char} {b : β} : Takes step s (b, false) rest → Steps step rest s [b]
  | more {s t : List Char} {b : β} {bs : List β} : s ≠ [] →
      Takes step s (b, true) (t ++ rest) → Steps step rest t bs → Steps step rest (s ++ t) (b :: bs)

theorem Steps.takes_times {step : Scan (β × Bool)} {text rest : List Char} {bs : List β}
    (h : Steps step rest text bs) {n : Nat} (hn : text.length < n) :
    Takes (times step n) text bs rest := by
  induction h generalizing n with
  | last hstep =>
    obtain ⟨k, rfl⟩ := Nat.exists_eq_succ_of_ne_zero (by omega : n ≠ 0)
    exact hstep.before (takes_pure _ _)
  | more hne hstep _ ih =>
    obtain ⟨k, rfl⟩ := Nat.exists_eq_succ_of_ne_zero (by omega : n ≠ 0)
    have hpos := List.length_pos_iff.mpr hne
    rw [List.length_append] at hn
    exact hstep.bind ((ih (by omega)).before (takes_pure _ _))

/-- The length of the text is fuel enough. -/
theorem Steps.takes_repeated {step : Scan (β × Bool)} {text rest : List Char} {bs : List β}
    (h : Steps step rest text bs) : Takes (repeated step) text bs rest := by
  refine h.takes_times ?_
  rw [List.length_append]
  omega

end Downhill.Toml.Scan
