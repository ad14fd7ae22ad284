import Downhill.Proofs.Evaluation.Computation
import Downhill.Proofs.Linear.Shape
import Downhill.Stabiliser

/-! # The first shift that yields a factor

The shifts that may be added to a Hessian form a geometric sequence, and each of them is added to
the Hessian itself. If that has no factor, the search takes the shifts in order and stops at the
first one that is not below the cap or that yields a factor. Where that is decides what a call
returns, what it carries on, and what it reports.
-/

namespace Downhill

namespace Stabiliser

variable {α : Type} [Scalar α]

/-! ## Shifts -/

/-- The shift that is tried after `k` others have been refused. -/
def shiftAt (config : ShiftConfig α) (carried : Option α) : Nat → α
  | 0 => seed config carried
  | k + 1 => shiftAt config carried k * config.gamma

theorem seed_none (config : ShiftConfig α) : seed config none = config.initialDelta := by
  unfold seed
  split
  · contradiction
  · rfl

/-- A schedule that starts over does not look at what is carried. -/
theorem seed_of_reset {config : ShiftConfig α} (hschedule : config.schedule = .resetEachIteration)
    (carried : Option α) : seed config carried = config.initialDelta := by
  simp only [seed, hschedule]

/-- What is reported when the first `k` shifts are refused. -/
def rejections (config : ShiftConfig α) (carried : Option α) (iteration k : Nat) :
    Array (Event α) :=
  ((List.range k).map fun j => .shiftRejected iteration (shiftAt config carried j)).toArray

@[simp] theorem size_rejections (config : ShiftConfig α) (carried : Option α) (iteration k : Nat) :
    (rejections config carried iteration k).size = k := by
  simp [rejections]

theorem rejections_succ (config : ShiftConfig α) (carried : Option α) (iteration k : Nat) :
    rejections config carried iteration (k + 1) =
      (rejections config carried iteration k).push
        (.shiftRejected iteration (shiftAt config carried k)) := by
  simp [rejections, List.range_succ]

/-- The solution of a system with `n` unknowns for the negated gradient, if that fits. -/
def solution (solve : Vec α → Vec α) (n : Nat) (gradient : Vec α) (regularisation : α) :
    Except (Stop α) (Direction α) :=
  if gradient.length = n then .ok ⟨solve gradient.neg, regularisation⟩
  else .error (.fault .sizes)

variable [Kernel α] {config : ShiftConfig α} {attempts iteration k : Nat} {carried : Option α}
  {hessian : Matrix α} {gradient : Vec α}

/-- The first `k` shifts stay below the cap, and none of them yields a factor. -/
def RefusesFirst (config : ShiftConfig α) (carried : Option α) (hessian : Matrix α) (k : Nat) :
    Prop :=
  ∀ j < k, shiftAt config carried j ≤ config.maxDelta ∧
    Kernel.factorise (hessian.shift (shiftAt config carried j)) = none

theorem RefusesFirst.succ (h : RefusesFirst config carried hessian k)
    (hbelow : shiftAt config carried k ≤ config.maxDelta)
    (hfactor : Kernel.factorise (hessian.shift (shiftAt config carried k)) = none) :
    RefusesFirst config carried hessian (k + 1) := by
  intro j hj
  rcases Nat.lt_succ_iff_lt_or_eq.mp hj with hlt | rfl
  · exact h j hlt
  · exact ⟨hbelow, hfactor⟩

/-! ## What a call returns -/

/-- What a call with a square Hessian returns, in terms of the shifts alone. -/
inductive ShiftsTo (config : ShiftConfig α) (attempts : Nat) (carried : Option α)
    (hessian : Matrix α) (gradient : Vec α) (iteration : Nat) : Stabilised α → Prop
  /-- The Hessian has a factor of its own, and no shift is carried on. -/
  | unshifted {solve : Vec α → Vec α} : Kernel.factorise hessian = some solve →
      ShiftsTo config attempts carried hessian gradient iteration
        ⟨solution solve hessian.height gradient 0.0, none, #[]⟩
  /-- The shift after `k` refused ones is the first that yields a factor. -/
  | shifted {k : Nat} {solve : Vec α → Vec α} : Kernel.factorise hessian = none →
      k < attempts → RefusesFirst config carried hessian k →
      shiftAt config carried k ≤ config.maxDelta →
      Kernel.factorise (hessian.shift (shiftAt config carried k)) = some solve →
      ShiftsTo config attempts carried hessian gradient iteration
        ⟨solution solve hessian.height gradient (shiftAt config carried k),
          some (shiftAt config carried k), rejections config carried iteration k⟩
  /-- The shift after `k` refused ones is the first that is not below the cap. -/
  | overflow {k : Nat} : Kernel.factorise hessian = none →
      k < attempts → RefusesFirst config carried hessian k →
      ¬ shiftAt config carried k ≤ config.maxDelta →
      ShiftsTo config attempts carried hessian gradient iteration
        ⟨.error (.error (.regularisationOverflow (shiftAt config carried k) config.maxDelta
          iteration)), carried, rejections config carried iteration k⟩
  /-- All shifts that are allowed are refused. -/
  | unsettled : Kernel.factorise hessian = none → RefusesFirst config carried hessian attempts →
      ShiftsTo config attempts carried hessian gradient iteration
        ⟨.error (.fault .unsettled), carried, rejections config carried iteration attempts⟩

/-! ## The search -/

section Search

variable (hsquare : hessian.isSquare = true)

include hsquare

/-- Refused shifts are reported and left behind. -/
theorem firstShift_of_refuses (iteration : Nat) (h : RefusesFirst config carried hessian k)
    (remaining : Nat) :
    firstShift config hessian iteration (k + remaining) (seed config carried) #[] =
      firstShift config hessian iteration remaining (shiftAt config carried k)
        (rejections config carried iteration k) := by
  induction k generalizing remaining with
  | zero =>
      rw [Nat.zero_add]
      rfl
  | succ k ih =>
      have hearlier : RefusesFirst config carried hessian k := fun j hj => h j (by omega)
      obtain ⟨hbelow, hfactor⟩ := h k (Nat.lt_succ_self k)
      rw [Nat.succ_add_eq_add_succ, ih hearlier, firstShift, if_pos hbelow, Matrix.solver?,
        if_pos (Matrix.isSquare_shift hsquare _), hfactor, rejections_succ]
      rfl

/-- The search comes to the shift after `k` refused ones if it is allowed one more. -/
theorem firstShift_reaches (iteration : Nat) (hk : k < attempts)
    (h : RefusesFirst config carried hessian k) :
    ∃ remaining, firstShift config hessian iteration attempts (seed config carried) #[] =
      firstShift config hessian iteration (remaining + 1) (shiftAt config carried k)
        (rejections config carried iteration k) := by
  obtain ⟨remaining, rfl⟩ := Nat.exists_eq_add_of_lt hk
  exact ⟨remaining, firstShift_of_refuses hsquare iteration h (remaining + 1)⟩

omit [Kernel α] hsquare in
theorem newton_of_factor (solve : Vec α → Vec α) (n : Nat) (gradient : Vec α)
    (regularisation : α) :
    newton (fun b => if b.length = n then .ok (solve b) else .error .sizes) gradient
        regularisation = solution solve n gradient regularisation := by
  dsimp only [newton, solution]
  rw [Vec.length_neg]
  by_cases hfits : gradient.length = n
  · rw [if_pos hfits, if_pos hfits]
  · rw [if_neg hfits, if_neg hfits]

theorem ShiftsTo.eq {ended : Stabilised α}
    (h : ShiftsTo config attempts carried hessian gradient iteration ended) :
    shiftDirection config attempts carried hessian gradient iteration = ended := by
  have hplain : hessian.solver? = .ok ((Kernel.factorise hessian).map fun solve b =>
      if b.length = hessian.height then .ok (solve b) else .error .sizes) := by
    rw [Matrix.solver?, if_pos hsquare]
  cases h with
  | unshifted hfactor =>
      rw [hfactor] at hplain
      simp only [shiftDirection, hplain, Option.map_some, newton_of_factor]
  | @shifted k solve hnone hk hrefused hbelow hfactor =>
      obtain ⟨remaining, hsearch⟩ := firstShift_reaches hsquare iteration hk hrefused
      rw [hnone] at hplain
      rw [firstShift, if_pos hbelow, Matrix.solver?, if_pos (Matrix.isSquare_shift hsquare _),
        hfactor, Matrix.height_shift] at hsearch
      simp only [shiftDirection, hplain, Option.map_none, hsearch, Option.map_some,
        newton_of_factor]
  | @overflow k hnone hk hrefused habove =>
      obtain ⟨remaining, hsearch⟩ := firstShift_reaches hsquare iteration hk hrefused
      rw [hnone] at hplain
      rw [firstShift, if_neg habove] at hsearch
      simp only [shiftDirection, hplain, Option.map_none, hsearch]
  | unsettled hnone hrefused =>
      have hsearch := firstShift_of_refuses hsquare iteration hrefused 0
      rw [hnone] at hplain
      rw [Nat.add_zero, firstShift] at hsearch
      simp only [shiftDirection, hplain, Option.map_none, hsearch]

omit hsquare in
/-- Either a search ends within its allowance, or all of that is refused. -/
theorem ends_or_refuses (config : ShiftConfig α) (carried : Option α) (hessian : Matrix α)
    (attempts : Nat) :
    (∃ k < attempts, RefusesFirst config carried hessian k ∧
      (¬ shiftAt config carried k ≤ config.maxDelta ∨
        shiftAt config carried k ≤ config.maxDelta ∧
          ∃ solve, Kernel.factorise (hessian.shift (shiftAt config carried k)) = some solve)) ∨
      RefusesFirst config carried hessian attempts := by
  induction attempts with
  | zero => exact .inr fun j hj => absurd hj (Nat.not_lt_zero j)
  | succ attempts ih =>
      rcases ih with ⟨k, hk, hended⟩ | hrefused
      · exact .inl ⟨k, Nat.lt_succ_of_lt hk, hended⟩
      · by_cases hbelow : shiftAt config carried attempts ≤ config.maxDelta
        · cases hfactor : Kernel.factorise (hessian.shift (shiftAt config carried attempts)) with
          | some solve =>
              exact .inl ⟨attempts, Nat.lt_succ_self _, hrefused, .inr ⟨hbelow, solve, hfactor⟩⟩
          | none => exact .inr (hrefused.succ hbelow hfactor)
        · exact .inl ⟨attempts, Nat.lt_succ_self _, hrefused, .inl hbelow⟩

omit hsquare in
theorem exists_shiftsTo (config : ShiftConfig α) (attempts : Nat) (carried : Option α)
    (hessian : Matrix α) (gradient : Vec α) (iteration : Nat) :
    ∃ ended, ShiftsTo config attempts carried hessian gradient iteration ended := by
  cases hplain : Kernel.factorise hessian with
  | some solve => exact ⟨_, .unshifted hplain⟩
  | none =>
      rcases ends_or_refuses config carried hessian attempts with
        ⟨k, hk, hrefused, habove | ⟨hbelow, solve, hfactor⟩⟩ | hrefused
      · exact ⟨_, .overflow hplain hk hrefused habove⟩
      · exact ⟨_, .shifted hplain hk hrefused hbelow hfactor⟩
      · exact ⟨_, .unsettled hplain hrefused⟩

theorem shiftDirection_shiftsTo (config : ShiftConfig α) (attempts : Nat) (carried : Option α)
    (gradient : Vec α) (iteration : Nat) :
    ShiftsTo config attempts carried hessian gradient iteration
      (shiftDirection config attempts carried hessian gradient iteration) := by
  obtain ⟨ended, hended⟩ := exists_shiftsTo config attempts carried hessian gradient iteration
  rwa [hended.eq hsquare]

omit hsquare in
theorem shiftDirection_of_not_square (hshape : ¬ hessian.isSquare = true)
    (config : ShiftConfig α) (attempts : Nat) (carried : Option α) (gradient : Vec α)
    (iteration : Nat) :
    shiftDirection config attempts carried hessian gradient iteration =
      ⟨.error (.fault .sizes), carried, #[]⟩ := by
  simp only [shiftDirection, Matrix.solver?, if_neg hshape]

/-- Whatever is configured and carried, a call returns the direction of the Hessian or of the first
shift that yields a factor, or it names the first shift that is not below the cap; and it reports
the shifts before, all of them refused. -/
theorem shiftDirection_eq_iff (config : ShiftConfig α) (attempts : Nat) (carried : Option α)
    (gradient : Vec α) (iteration : Nat) (ended : Stabilised α) :
    shiftDirection config attempts carried hessian gradient iteration = ended ↔
      ShiftsTo config attempts carried hessian gradient iteration ended := by
  constructor
  · rintro rfl
    exact shiftDirection_shiftsTo hsquare config attempts carried gradient iteration
  · exact fun h => h.eq hsquare

end Search

/-- With the configuration that is used unless another is given, a curvature of minus one twentieth
takes four shifts, of which the last one is a tenth. -/
theorem saddle_shiftsTo_tenth :
    let hessian : Matrix Float := ⟨[[2.0, 0.0], [0.0, -0.05]]⟩
    hessian.isSquare = true ∧ ∃ ended : Stabilised Float,
      ShiftsTo .default 5 none hessian [1.0, -1.0] 3 ended ∧ ended.outcome.toOption.isSome = true ∧
        ended.carried = some 0.1 ∧ ended.events.size = 3 := by
  intro hessian
  have hsquare : hessian.isSquare = true := by rfl
  exact ⟨hsquare, shiftDirection .default 5 none hessian [1.0, -1.0] 3,
    (shiftDirection_eq_iff hsquare .default 5 none [1.0, -1.0] 3 _).mp rfl,
    by decide +kernel, by decide +kernel, by decide +kernel⟩

/-! ## Errors -/

omit [Kernel α] in
theorem solution_ne_error (solve : Vec α → Vec α) (n : Nat) (gradient : Vec α)
    (regularisation : α) (error : SolverError α) :
    solution solve n gradient regularisation ≠ .error (.error error) := by
  unfold solution
  split <;> simp

theorem ShiftsTo.error {ended : Stabilised α} {error : SolverError α}
    (hended : ShiftsTo config attempts carried hessian gradient iteration ended)
    (h : ended.outcome = .error (.error error)) :
    ∃ k, RefusesFirst config carried hessian k ∧ ¬ shiftAt config carried k ≤ config.maxDelta ∧
      ended = ⟨.error (.error (.regularisationOverflow (shiftAt config carried k) config.maxDelta
        iteration)), carried, rejections config carried iteration k⟩ := by
  cases hended with
  | unshifted => exact absurd h (solution_ne_error _ _ _ _ _)
  | shifted => exact absurd h (solution_ne_error _ _ _ _ _)
  | overflow _ _ hrefused habove => exact ⟨_, hrefused, habove, rfl⟩
  | unsettled => cases h

/-- An error means that the cap is exceeded, after the first shift and perhaps others. -/
theorem shiftDirection_refused {error : SolverError α}
    (h : (shiftDirection config attempts carried hessian gradient iteration).outcome =
      .error (.error error)) :
    ∃ k, RefusesFirst config carried hessian k ∧ ¬ shiftAt config carried k ≤ config.maxDelta ∧
      shiftDirection config attempts carried hessian gradient iteration =
        ⟨.error (.error (.regularisationOverflow (shiftAt config carried k) config.maxDelta
          iteration)), carried, rejections config carried iteration k⟩ := by
  by_cases hsquare : hessian.isSquare = true
  · exact (shiftDirection_shiftsTo hsquare config attempts carried gradient iteration).error h
  · rw [shiftDirection_of_not_square hsquare] at h
    cases h

/-! ## Schedules -/

/-- With a schedule that starts over, what is carried does not matter. -/
theorem outcome_of_reset (hschedule : config.schedule = .resetEachIteration) (attempts : Nat)
    (carried carried' : Option α) (hessian : Matrix α) (gradient : Vec α) (iteration : Nat) :
    (shiftDirection config attempts carried hessian gradient iteration).outcome =
      (shiftDirection config attempts carried' hessian gradient iteration).outcome := by
  unfold shiftDirection
  rw [seed_of_reset hschedule carried, seed_of_reset hschedule carried']
  split
  · rfl
  · rfl
  · split <;> rfl

end Stabiliser

end Downhill
