import Downhill.Proofs.Search.FirstStep

/-! # Steps of a line search

However a line search ends, its step is the first one or comes from it by shrinking. A search has
an outcome whenever the values that it may look at are answered.
-/

namespace Downhill

variable {σ α : Type} [Scalar α]

namespace LineSearch

/-! ## Steps -/

section Steps

variable {problem : Objective σ α} {config : SearchConfig α} {x d gradient : Vec α} {fx slope : α}
  {o o' : σ} {outcome : SearchOutcome α}

/-- What an outcome has of its configuration and of the slope it was found with. -/
structure Returned (config : SearchConfig α) (slope : α) (outcome : SearchOutcome α) : Prop where
  step_eq : outcome.step = config.step outcome.shrinks
  within : outcome.shrinks ≤ config.maxShrinks
  slope_eq : outcome.slope = slope

theorem shrink_returned {remaining k : Nat} (hcap : k + remaining = config.maxShrinks)
    (h : shrink problem config x d fx slope remaining k (config.step k) o = (.ok outcome, o')) :
    Returned config slope outcome := by
  have hwithin : k ≤ config.maxShrinks := by omega
  induction remaining generalizing k o with
  | zero =>
      unfold shrink at h
      obtain ⟨trial, o₁, -, h⟩ := bind_ok h
      obtain ⟨ft, o₂, -, h⟩ := bind_ok h
      split at h <;> cases h <;> exact ⟨rfl, hwithin, rfl⟩
  | succ remaining ih =>
      unfold shrink at h
      obtain ⟨trial, o₁, -, h⟩ := bind_ok h
      obtain ⟨ft, o₂, -, h⟩ := bind_ok h
      split at h
      · cases h
        exact ⟨rfl, hwithin, rfl⟩
      · exact ih (by omega) h (by omega)

theorem backtracking_returned
    (h : backtracking problem x d gradient config o = (.ok outcome, o')) :
    ∃ slope, Vec.dot gradient d = .ok slope ∧ Returned config slope outcome := by
  unfold backtracking at h
  obtain ⟨slope, o₁, hslope, h⟩ := bind_ok h
  refine ⟨slope, congrArg Prod.fst hslope, ?_⟩
  split at h
  · cases h
    exact ⟨rfl, Nat.zero_le _, rfl⟩
  · obtain ⟨fx, o₂, -, h⟩ := bind_ok h
    exact shrink_returned (Nat.zero_add _) h

/-- Whatever the objective does, the step that is returned is one of those of the configuration. -/
theorem backtracking_step_eq (h : backtracking problem x d gradient config o = (.ok outcome, o')) :
    outcome.step = config.step outcome.shrinks ∧ outcome.shrinks ≤ config.maxShrinks := by
  obtain ⟨slope, -, hreturned⟩ := backtracking_returned h
  exact ⟨hreturned.step_eq, hreturned.within⟩

/-- Whatever the objective does, the slope that is returned is that of the direction. -/
theorem backtracking_slope_eq (h : backtracking problem x d gradient config o = (.ok outcome, o')) :
    Vec.dot gradient d = .ok outcome.slope := by
  obtain ⟨slope, hslope, hreturned⟩ := backtracking_returned h
  rw [hslope, hreturned.slope_eq]

end Steps

variable {f : Answers α} {config : SearchConfig α} {x d gradient : Vec α} {fx slope : α}

/-- What holds of the first step, and of a shrunk step if of the one before, holds of the step that
is returned. -/
theorem search_step (kept : α → Prop) (hinitial : kept config.initialStep)
    (hshrink : ∀ t, kept t → kept (t * config.tau)) {outcome : SearchOutcome α}
    (h : (f.search x d gradient config).1 = .ok outcome) : kept outcome.step := by
  have hkept (k : Nat) : kept (config.step k) := by
    induction k with
    | zero => exact hinitial
    | succ k ih => exact hshrink _ ih
  obtain ⟨hstep, -⟩ := backtracking_step_eq (Prod.ext h rfl)
  rw [hstep]
  exact hkept _

/-! ## Answers -/

/-- Every step along `d` leads from `x` to a point that has a value. -/
def Answered (f : Answers α) (x d : Vec α) : Prop :=
  ∀ t, ∃ trial, x.move t d = .ok trial ∧ ∃ v, f.value trial = .ok v

theorem shrink_answers (h : Answered f x d) (remaining shrinks : Nat) (t : α)
    (calls : List (Call α)) :
    Ends (shrink f.traced config x d fx slope remaining shrinks t) calls
      (fun _ _ => True) (fun _ _ => False) := by
  have hmove (t : α) (fault : Fault) : x.move t d ≠ .error fault := by
    obtain ⟨trial, htrial, -⟩ := h t
    simp [htrial]
  have hvalue (t : α) (trial : Vec α) (fault : Fault) (htrial : x.move t d = .ok trial) :
      f.value trial ≠ .error fault := by
    obtain ⟨trial', htrial', v, hv⟩ := h t
    rw [htrial] at htrial'
    cases htrial'
    simp [hv]
  induction remaining generalizing shrinks t calls with
  | zero =>
      unfold shrink
      exact trial_ends (fun _ _ => trivial) (fun _ => .pure trivial) (hmove t) (hvalue t)
  | succ remaining ih =>
      unfold shrink
      exact trial_ends (fun _ _ => trivial) (fun _ => ih _ _ _) (hmove t) (hvalue t)

theorem exists_search (hslope : Vec.dot gradient d = .ok slope) (hfx : f.value x = .ok fx)
    (h : Answered f x d) : ∃ outcome, (f.search x d gradient config).1 = .ok outcome := by
  have hends : Ends (backtracking f.traced x d gradient config) [] (fun _ _ => True)
      (fun _ _ => False) := by
    unfold backtracking
    refine .bind (ends_answer (fun slope _ => ?_) fun fault hfault => by simp [hslope] at hfault)
    split
    · exact .pure trivial
    · exact .bind (ends_value (fun fx _ => shrink_answers h _ _ _ _)
        fun fault hfault => by simp [hfx] at hfault)
  cases hsearch : backtracking f.traced x d gradient config [] with
  | mk result calls =>
      cases result with
      | ok outcome => exact ⟨outcome, by rw [Answers.search, hsearch]⟩
      | error fault => exact (hends.stop hsearch).elim

end LineSearch

end Downhill
