import Mathlib
import Downhill.Proofs.Exact.Systems

/-! # Shifts and definiteness

In exact arithmetic a shift yields a factor if and only if it makes the Hessian positive definite,
and every larger shift does so too. The shifts of a call grow by one factor at a time: the first
that yields a factor is at most one factor above the smallest that would do, and none is given up
while one that would do is at least one factor below the cap.
-/

open Matrix

namespace Downhill

variable {n : ℕ}

/-! ## Shifted matrices -/

theorem fromLower_shift (A : RealMatrix n) (shift : ℝ) :
    fromLower (A + shift • 1) = fromLower A + shift • 1 := by
  ext i j
  rcases lt_trichotomy i j with hij | rfl | hij
  · simp [fromLower, hij.le, hij.ne, hij.ne']
  · simp [fromLower]
  · simp [fromLower, hij.le]

/-- What a shift makes positive definite, a larger one does too. -/
theorem posDef_shift_mono {A : RealMatrix n} {shift larger : ℝ} (hle : shift ≤ larger)
    (h : (fromLower (A + shift • 1)).PosDef) : (fromLower (A + larger • 1)).PosDef := by
  have hsum : fromLower (A + larger • 1) =
      fromLower (A + shift • 1) + (larger - shift) • (1 : RealMatrix n) := by
    rw [fromLower_shift, fromLower_shift, sub_smul]
    abel
  rw [hsum]
  exact h.add_posSemidef (PosSemidef.one.smul (sub_nonneg.mpr hle))

theorem factorise_shift_eq_none [Kernel ℝ] [ExactFactorisation] (A : RealMatrix n) (shift : ℝ) :
    Kernel.factorise ((tabulate A).shift shift) = none ↔
      ¬ (fromLower (A + shift • 1)).PosDef := by
  rw [shift_tabulate, ← ExactFactorisation.factorise_isSome, Option.not_isSome_iff_eq_none]

namespace Stabiliser

/-! ## Shifts of a call -/

theorem shiftAt_eq (config : ShiftConfig ℝ) (carried : Option ℝ) (k : ℕ) :
    shiftAt config carried k = seed config carried * config.gamma ^ k := by
  induction k with
  | zero => rw [shiftAt, pow_zero, mul_one]
  | succ k ih => rw [shiftAt, ih, pow_succ, mul_assoc]

section Shifts

variable {config : ShiftConfig ℝ} (hvalid : config.validate = .ok ()) {carried : Option ℝ}

include hvalid

theorem one_lt_gamma : 1 < config.gamma := by
  have hgamma := (ShiftConfig.validate_ok hvalid).1
  norm_num at hgamma
  exact hgamma

theorem shiftAt_mono (carried : Option ℝ) : Monotone (shiftAt config carried) := by
  refine monotone_nat_of_le_succ fun k => ?_
  exact Scalar.Scaling.le_mul (seed_le_shiftAt hvalid carried k).1
    (ShiftConfig.validate_ok hvalid).1

theorem shiftAt_succ_div (carried : Option ℝ) (k : ℕ) :
    shiftAt config carried (k + 1) / config.gamma = shiftAt config carried k :=
  mul_div_cancel_right₀ _ (one_pos.trans (one_lt_gamma hvalid)).ne'

/-- The shifts reach every bound, and the first that does is the seed or less than one factor
above it. -/
theorem exists_shiftAt_ge (carried : Option ℝ) (bound : ℝ) :
    ∃ k, bound ≤ shiftAt config carried k ∧
      shiftAt config carried k ≤ max (seed config carried) (config.gamma * bound) := by
  have hgamma := one_lt_gamma hvalid
  have hseed : (0.0 : ℝ) < seed config carried := (seed_le_shiftAt hvalid carried 0).1
  norm_num at hseed
  have hreach : ∃ k, bound ≤ shiftAt config carried k := by
    obtain ⟨k, hk⟩ := pow_unbounded_of_one_lt (bound / seed config carried) hgamma
    refine ⟨k, ?_⟩
    rw [shiftAt_eq, mul_comm]
    exact ((div_lt_iff₀ hseed).mp hk).le
  classical
  refine ⟨Nat.find hreach, Nat.find_spec hreach, ?_⟩
  cases hk : Nat.find hreach with
  | zero => exact le_max_left _ _
  | succ k =>
      have hshort : shiftAt config carried k < bound :=
        not_le.mp (Nat.find_min hreach (hk ▸ Nat.lt_succ_self k))
      rw [shiftAt, mul_comm]
      exact le_max_of_le_right (mul_le_mul_of_nonneg_left hshort.le (one_pos.trans hgamma).le)

end Shifts

/-! ## Outcomes -/

section Outcomes

variable [Kernel ℝ] [ExactFactorisation] {config : ShiftConfig ℝ} {attempts iteration k : ℕ}
  {carried : Option ℝ} {A : RealMatrix n}

/-- Shifts that are refused are too small. -/
theorem RefusesFirst.not_posDef (h : RefusesFirst config carried (tabulate A) k) {j : ℕ}
    (hj : j < k) : ¬ (fromLower (A + shiftAt config carried j • 1)).PosDef :=
  (factorise_shift_eq_none A _).mp (h j hj).2

omit [Kernel ℝ] [ExactFactorisation] in
theorem solution_ofFn (solve : Vec ℝ → Vec ℝ) (g : Fin n → ℝ) (regularisation : ℝ) :
    solution solve (tabulate A).height (List.ofFn g) regularisation =
      .ok ⟨solve (Vec.neg (List.ofFn g)), regularisation⟩ := by
  rw [solution, if_pos (by simp)]

variable (hvalid : config.validate = .ok ())

include hvalid

/-- A shift of the call that would do and is below the cap bounds the correction. -/
theorem exists_direction_of_posDef (hbelow : shiftAt config carried k ≤ config.maxDelta)
    (hposDef : (fromLower (A + shiftAt config carried k • 1)).PosDef) (hk : k < attempts)
    (g : Fin n → ℝ) (iteration : ℕ) :
    ∃ d, (shiftDirection config attempts carried (tabulate A) (List.ofFn g) iteration).outcome =
        .ok d ∧ d.regularisation ≤ shiftAt config carried k := by
  have hmono := shiftAt_mono hvalid carried
  have hpos : (0.0 : ℝ) < shiftAt config carried k := (seed_le_shiftAt hvalid carried k).1
  obtain ⟨ended, hended⟩ :=
    exists_shiftsTo config attempts carried (tabulate A) (List.ofFn g) iteration
  rw [hended.eq (isSquare_tabulate A)]
  cases hended with
  | unshifted hfactor => exact ⟨_, solution_ofFn _ g _, hpos.le⟩
  | @shifted j solve hnone hj hrefused hjbelow hfactor =>
      have hjk : j ≤ k := not_lt.mp fun hlt => hrefused.not_posDef hlt hposDef
      exact ⟨_, solution_ofFn _ g _, hmono hjk⟩
  | @overflow j hnone hj hrefused habove =>
      have hjk : j ≤ k := not_lt.mp fun hlt => hrefused.not_posDef hlt hposDef
      exact absurd ((hmono hjk).trans hbelow) habove
  | unsettled hnone hrefused => exact absurd hposDef (hrefused.not_posDef hk)

/-- A correction above the seed follows on one that was refused. -/
theorem not_posDef_of_direction {g : Fin n → ℝ} {d : Direction ℝ}
    (hd : (shiftDirection config attempts carried (tabulate A) (List.ofFn g) iteration).outcome =
      .ok d) (hlarge : seed config carried < d.regularisation) :
    ¬ (fromLower (A + (d.regularisation / config.gamma) • 1)).PosDef := by
  obtain ⟨ended, hended⟩ :=
    exists_shiftsTo config attempts carried (tabulate A) (List.ofFn g) iteration
  rw [hended.eq (isSquare_tabulate A)] at hd
  cases hended with
  | unshifted hfactor =>
      cases (solution_ofFn _ g _).symm.trans hd
      exact absurd hlarge (seed_le_shiftAt hvalid carried 0).1.not_gt
  | @shifted j solve hnone hj hrefused hjbelow hfactor =>
      cases (solution_ofFn _ g _).symm.trans hd
      cases j with
      | zero => exact absurd hlarge (lt_irrefl _)
      | succ j =>
          rw [shiftAt_succ_div hvalid]
          exact hrefused.not_posDef (Nat.lt_succ_self j)
  | overflow => cases hd
  | unsettled => cases hd

/-- Where the cap is exceeded, the shift before was less than one factor below it. -/
theorem not_posDef_of_overflow (hcarried : Within config carried) {g : Fin n → ℝ}
    {error : SolverError ℝ}
    (herror : (shiftDirection config attempts carried (tabulate A) (List.ofFn g)
      iteration).outcome = .error (.error error)) :
    ¬ (fromLower (A + (config.maxDelta / config.gamma) • 1)).PosDef := by
  obtain ⟨j, hrefused, habove, -⟩ := shiftDirection_refused herror
  cases j with
  | zero => exact absurd (seed_le_maxDelta hvalid hcarried) habove
  | succ j =>
      have hle : config.maxDelta / config.gamma ≤ shiftAt config carried j := by
        rw [← shiftAt_succ_div hvalid]
        exact div_le_div_of_nonneg_right (not_le.mp habove).le
          (one_pos.trans (one_lt_gamma hvalid)).le
      exact fun hposDef => hrefused.not_posDef (Nat.lt_succ_self j) (posDef_shift_mono hle hposDef)

end Outcomes

/-- The corrections of a call are the seed or less than one factor above what is needed, and only a
need that is less than one factor below the cap is refused. `outcome` tells how the call ends that
may try so many shifts. -/
structure ShiftsTightly (config : ShiftConfig ℝ) (carried : Option ℝ) (A : RealMatrix n)
    (outcome : ℕ → Except (Stop ℝ) (Direction ℝ)) : Prop where
  found : ∀ need, 0 < need → (fromLower (A + need • 1)).PosDef →
    config.gamma * need ≤ config.maxDelta → ∃ enough, ∀ attempts ≥ enough, ∃ d,
      outcome attempts = .ok d ∧
        d.regularisation ≤ max (seed config carried) (config.gamma * need)
  least : ∀ attempts d, outcome attempts = .ok d → seed config carried < d.regularisation →
    ¬ (fromLower (A + (d.regularisation / config.gamma) • 1)).PosDef
  refused : ∀ attempts error, outcome attempts = .error (.error error) →
    ¬ (fromLower (A + (config.maxDelta / config.gamma) • 1)).PosDef

/-- Whatever a stabiliser with a valid configuration has been called with before, it does not shift
a Hessian by a factor more than is needed, and it does not give up early. -/
theorem history_shiftsTightly [Kernel ℝ] [ExactFactorisation] {config : ShiftConfig ℝ}
    (hvalid : config.validate = .ok ()) (before : ℕ) (requests : List (Request ℝ))
    (A : RealMatrix n) (g : Fin n → ℝ) (iteration : ℕ) :
    ShiftsTightly config (history config before requests).carried A fun attempts =>
      ((history config before requests).answer config attempts
        ⟨tabulate A, List.ofFn g, iteration⟩).outcome := by
  have hcarried := (history_kept hvalid before requests).bounded
  generalize history config before requests = past at hcarried
  refine ⟨fun need hneed hposDef hcap => ?_, fun attempts d hd hlarge => ?_,
    fun attempts error herror => ?_⟩
  · obtain ⟨k, hreached, hle⟩ := exists_shiftAt_ge hvalid past.carried need
    have hbelow : shiftAt config past.carried k ≤ config.maxDelta :=
      hle.trans (max_le (seed_le_maxDelta hvalid hcarried) hcap)
    refine ⟨k + 1, fun attempts hk => ?_⟩
    obtain ⟨d, hd, hd'⟩ := exists_direction_of_posDef hvalid hbelow
      (posDef_shift_mono hreached hposDef) hk g iteration
    exact ⟨d, hd, hd'.trans hle⟩
  · exact not_posDef_of_direction hvalid hd hlarge
  · exact not_posDef_of_overflow hvalid hcarried herror

/-- A curvature of minus five needs a shift above five; six would do, so no more than sixty is
added. -/
theorem saddle_shiftsTightly :
    (ShiftConfig.default : ShiftConfig ℝ).validate = .ok () ∧
      ∃ enough, ∀ attempts ≥ enough, ∃ d,
        (shiftDirection .default attempts none (tabulate (diagonal ![2, -5]))
          (List.ofFn ![1, 1]) 0).outcome = .ok d ∧ d.regularisation ≤ 60 := by
  have hneed : (fromLower (diagonal ![2, -5] + (6 : ℝ) • 1)).PosDef := by
    rw [fromLower_shift, fromLower_of_isSymm (isSymm_diagonal _), smul_one_eq_diagonal,
      diagonal_add]
    exact PosDef.diagonal (by simp [Fin.forall_fin_two]; norm_num)
  refine ⟨ShiftConfig.default_validate, ?_⟩
  obtain ⟨enough, henough⟩ := (history_shiftsTightly ShiftConfig.default_validate 0 []
    (diagonal ![2, -5]) ![1, 1] 0).found 6 (by norm_num) hneed
      (by norm_num [ShiftConfig.default])
  refine ⟨enough, fun attempts hattempts => ?_⟩
  obtain ⟨d, hd, hle⟩ := henough attempts hattempts
  refine ⟨d, hd, hle.trans ?_⟩
  norm_num [seed, ShiftConfig.default]

end Stabiliser

end Downhill
