import Downhill.Sampling

/-! # One stream of words

Coordinates are drawn from one stream of words, in order. How they are cut into points, and the
points into requests, makes no difference to them.
-/

namespace Downhill.Sampling

variable {α β γ : Type}

/-! ## Words -/

section Words

variable (next : γ → UInt64 × γ)

/-- The next `k` words of a generator, in order. -/
def words : Nat → γ → List UInt64
  | 0, _ => []
  | k + 1, g => (next g).1 :: words k (next g).2

/-- The generator after `k` words. -/
def after : Nat → γ → γ
  | 0, g => g
  | k + 1, g => after k (next g).2

@[simp] theorem length_words (k : Nat) (g : γ) : (words next k g).length = k := by
  induction k generalizing g with
  | zero => rfl
  | succ k ih => rw [words, List.length_cons, ih]

theorem after_add (m n : Nat) (g : γ) :
    after next (m + n) g = after next n (after next m g) := by
  induction m generalizing g with
  | zero => rw [Nat.zero_add, after]
  | succ m ih => rw [Nat.succ_add, after, after, ih]

theorem words_add (m n : Nat) (g : γ) :
    words next (m + n) g = words next m g ++ words next n (after next m g) := by
  induction m generalizing g with
  | zero => rw [Nat.zero_add, after, words, List.nil_append]
  | succ m ih => rw [Nat.succ_add, words, words, after, ih, List.cons_append]

end Words

/-! ## Draws -/

theorem draw_bind (draw : Draw γ α β) {δ : Type} (f : β → Draw γ α δ) (g : γ) :
    (draw >>= f) g = match draw g with
      | (.ok b, g) => f b g
      | (.error e, g) => (.error e, g) := by
  change (match draw g with
    | (r, g) => ExceptT.bindCont f r g) = _
  cases draw g with
  | mk r g => cases r <;> rfl

variable [Drawable α] {next : γ → UInt64 × γ} {lo hi scale : α} {n : Nat}

theorem coordinates_eq (lo scale : α) (n : Nat) (g : γ) :
    coordinates next lo scale n g = ((words next n g).map (place lo scale), after next n g) := by
  induction n generalizing g with
  | zero => rfl
  | succ n ih => simp only [coordinates, ih, words, after, List.map_cons]

/-- Coordinates can be drawn from the range, with this scale. -/
structure Spans (lo hi scale : α) : Prop where
  le : lo ≤ hi
  scale_eq : scaleOf lo hi = .ok scale

/-- A point takes one word for each of its coordinates. -/
theorem drawPoint_eq (h : Spans lo hi scale) (n : Nat) (g : γ) :
    drawPoint next n lo hi g = (.ok ((words next n g).map (place lo scale)), after next n g) := by
  unfold drawPoint
  rw [if_pos h.le]
  cases n with
  | zero => rfl
  | succ n =>
    simp only [h.scale_eq]
    rw [coordinates_eq]

theorem drawPoint_of_empty (h : ¬ lo ≤ hi) (n : Nat) (g : γ) :
    drawPoint next n lo hi g = (.error (.empty lo hi), g) := if_neg h

/-- A list is cut into `count` pieces of length `n`. -/
structure Cuts (pieces : List (List β)) (count n : Nat) (whole : List β) : Prop where
  count : pieces.length = count
  length : ∀ piece ∈ pieces, piece.length = n
  flatten : pieces.flatten = whole

theorem Cuts.cons {pieces : List (List β)} {count : Nat} {piece whole : List β}
    (h : Cuts pieces count n whole) (hpiece : piece.length = n) :
    Cuts (piece :: pieces) (count + 1) n (piece ++ whole) where
  count := by rw [List.length_cons, h.count]
  length := List.forall_mem_cons.mpr ⟨hpiece, h.length⟩
  flatten := by rw [List.flatten_cons, h.flatten]

/-- Points cut the coordinates that the stream stands for. -/
theorem exists_drawPoints (h : Spans lo hi scale) (n count : Nat) (g : γ) :
    ∃ points, drawPoints next n lo hi count g = (.ok points, after next (count * n) g) ∧
      Cuts points count n ((words next (count * n) g).map (place lo scale)) := by
  induction count generalizing g with
  | zero =>
    rw [Nat.zero_mul]
    exact ⟨[], rfl, rfl, fun _ h => absurd h List.not_mem_nil, rfl⟩
  | succ count ih =>
    obtain ⟨rest, hrest, hcuts⟩ := ih (after next n g)
    have hcount : (count + 1) * n = n + count * n := by rw [Nat.succ_mul, Nat.add_comm]
    refine ⟨(words next n g).map (place lo scale) :: rest, ?_, ?_⟩
    · rw [drawPoints, draw_bind, drawPoint_eq h, hcount, after_add]
      dsimp only
      rw [draw_bind, hrest]
      rfl
    · rw [hcount, words_add, List.map_append]
      exact hcuts.cons (by rw [List.length_map, length_words])

/-- A request is drawn as two consecutive ones. -/
theorem drawPoints_add (next : γ → UInt64 × γ) (n : Nat) (lo hi : α) (count₁ count₂ : Nat) :
    drawPoints next n lo hi (count₁ + count₂) = do
      let first ← drawPoints next n lo hi count₁
      let rest ← drawPoints next n lo hi count₂
      return first ++ rest := by
  induction count₁ with
  | zero => simp [drawPoints]
  | succ count₁ ih => simp [Nat.succ_add, drawPoints, ih]

/-- No word is drawn for an empty range. -/
theorem drawPoints_of_empty (h : ¬ lo ≤ hi) {count : Nat} (hcount : 0 < count) (g : γ) :
    drawPoints next n lo hi count g = (.error (.empty lo hi), g) := by
  cases count with
  | zero => cases hcount
  | succ count => rw [drawPoints, draw_bind, drawPoint_of_empty h]

end Downhill.Sampling
