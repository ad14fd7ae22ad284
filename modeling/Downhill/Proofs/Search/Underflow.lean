import Mathlib
import Downhill.Proofs.Number.Shrinking
import Downhill.Proofs.Search.StepLength
import Downhill.Proofs.Validity

/-! # Steps that vanish

A search over doubles returns no negative step and none that is longer than the first. But a step
that shrinks often enough may underflow: whether a configuration guards against it is a matter of
the last step that its cap allows.
-/

namespace Downhill

/-! ## Steps over doubles -/

open FloatGrid

namespace SearchConfig

variable {config : SearchConfig Float} (h : config.validate = .ok ())

include h

theorem exists_holds_initialStep : ∃ m e, Holds config.initialStep m e :=
  exists_holds_of_isFinite (validate_ok h).1 (isFinite_initialStep h)

theorem exists_holds_tau : ∃ n f, Holds config.tau n f ∧ size n f < 1 := by
  obtain ⟨-, -, htau⟩ := validate_ok h
  simp only [inUnitInterval, Bool.and_eq_true, decide_eq_true_eq] at htau
  exact exists_holds_of_lt_one htau.1 htau.2

theorem step_atMost {m : ℕ} {e : ℤ} (hinitial : Holds config.initialStep m e) (k : ℕ) :
    AtMost (config.step k) (size m e) := by
  obtain ⟨n, f, htau, hlt⟩ := exists_holds_tau h
  induction k with
  | zero => exact .inr ⟨m, e, hinitial, le_rfl⟩
  | succ k ih =>
      exact ih.mul htau hinitial.onGrid hinitial.exponent_le
        (mul_le_of_le_one_right hinitial.size_pos.le hlt.le)

theorem step_bounds (k : ℕ) : 0.0 ≤ config.step k ∧ config.step k ≤ config.initialStep := by
  obtain ⟨m, e, hinitial⟩ := exists_holds_initialStep h
  exact ⟨(step_atMost h hinitial k).nonneg, (step_atMost h hinitial k).le hinitial⟩

theorem step_zero_or_holds (k : ℕ) : config.step k = 0.0 ∨ ∃ m e, Holds (config.step k) m e := by
  obtain ⟨m, e, hinitial⟩ := exists_holds_initialStep h
  refine (step_atMost h hinitial k).imp id ?_
  rintro ⟨m', e', hholds, -⟩
  exact ⟨m', e', hholds⟩

/-! ### Vanishing -/

/-- A step that has vanished does not come back. -/
theorem step_eq_zero_of_le {j k : ℕ} (hjk : j ≤ k) (hzero : config.step j = 0.0) :
    config.step k = 0.0 := by
  obtain ⟨n, f, htau, -⟩ := exists_holds_tau h
  induction hjk with
  | refl => exact hzero
  | step _ ih => rw [step, ih, htau.zero_mul_eq]

theorem step_pos_of_le {j k : ℕ} (hjk : j ≤ k) (hpos : 0.0 < config.step k) :
    0.0 < config.step j := by
  rcases step_zero_or_holds h j with hzero | hholds
  · rw [step_eq_zero_of_le h hjk hzero] at hpos
    exact absurd hpos (Scalar.Ordered.lt_irrefl _)
  · exact (zero_lt_iff _).mpr (.inr hholds)

/-- A factor above one half leaves all steps positive. -/
theorem step_pos_of_half_lt (hhalf : 0.5 < config.tau) (k : ℕ) : 0.0 < config.step k := by
  obtain ⟨n, f, htau, -⟩ := exists_holds_tau h
  induction k with
  | zero => exact (validate_ok h).1
  | succ k ih =>
      obtain ⟨m, e, hholds⟩ := (step_zero_or_holds h k).resolve_left fun hzero => by
        rw [hzero] at ih
        exact Scalar.Ordered.lt_irrefl _ ih
      rw [step]
      exact hholds.mul_pos htau (htau.half_lt_iff.mp hhalf)

section SmallFactor

variable (hhalf : ¬ 0.5 < config.tau)

include hhalf

/-- Any other factor takes the steps below one power of two after the other. -/
theorem step_atMost_two_pow {k : ℕ} (hk : k ≤ 2098) :
    AtMost (config.step k) (2 ^ (1024 - k : ℤ)) := by
  obtain ⟨n, f, htau, -⟩ := exists_holds_tau h
  have hfactor : size n f ≤ 1 / 2 := not_lt.mp (htau.half_lt_iff.not.mp hhalf)
  induction k with
  | zero =>
      obtain ⟨m, e, hinitial⟩ := exists_holds_initialStep h
      exact .inr ⟨m, e, hinitial, hinitial.size_lt.le⟩
  | succ k ih =>
      obtain ⟨a, c, hgrid, hfinite, hsize⟩ := exists_onGrid_two_pow (j := 1024 - (k + 1 : ℕ))
        (by omega) (by omega)
      rw [← hsize]
      refine (ih (by omega)).mul htau hgrid hfinite ?_
      have hpow : (0 : ℚ) < 2 ^ (1024 - k : ℤ) := zpow_pos (by norm_num) _
      calc 2 ^ (1024 - k : ℤ) * size n f ≤ 2 ^ (1024 - k : ℤ) * (1 / 2) :=
            mul_le_mul_of_nonneg_left hfactor hpow.le
        _ = 2 ^ (1024 - (k + 1 : ℕ) : ℤ) := by
            push_cast
            rw [← sub_sub, zpow_sub_one₀ (by norm_num)]
            norm_num
        _ = size a c := hsize.symm

theorem step_eq_zero {k : ℕ} (hk : 2099 ≤ k) : config.step k = 0.0 := by
  obtain ⟨n, f, htau, -⟩ := exists_holds_tau h
  have hfactor : size n f ≤ 1 / 2 := not_lt.mp (htau.half_lt_iff.not.mp hhalf)
  have hlast : AtMost (config.step 2098) tiny := step_atMost_two_pow h hhalf le_rfl
  refine step_eq_zero_of_le h hk (hlast.mul_eq_zero htau ?_)
  have := mul_le_mul_of_nonneg_left hfactor tiny_pos.le
  linarith

end SmallFactor

end SearchConfig

/-! ## Searches -/

/-- Where the value is the same everywhere. -/
def Answers.flat : Answers Float where
  unknowns := 1
  value _ := .ok 0.0
  gradient _ := .ok [0.0]
  hessian _ := .ok ⟨[[0.0]]⟩

namespace LineSearch

/-- Every search with the configuration returns a positive step, whatever the objective does. -/
def NeverStalls (config : SearchConfig Float) : Prop :=
  ∀ (σ : Type) (problem : Objective σ Float) (x d gradient : Vec Float) (o o' : σ)
    (outcome : SearchOutcome Float),
    backtracking problem x d gradient config o = (.ok outcome, o') → 0.0 < outcome.step

/-- Along a slope that the values do not have, a search tries all steps. -/
theorem exists_last_step (config : SearchConfig Float) :
    ∃ outcome o', backtracking Answers.flat.traced [0.0] [1.0] [-1.0] config [] =
      (.ok outcome, o') ∧ outcome.step = config.step config.maxShrinks := by
  have hslope : Vec.inner [-1.0] [1.0] = (-1.0 : Float) := by decide +kernel
  obtain ⟨outcome, looks, hbacktracks, hsearch⟩ := backtracking_backtracks
    Answers.flat.traced_gives [0.0] [1.0] [-1.0] rfl rfl (fun _ _ => rfl) config []
  rw [hslope] at hbacktracks
  refine ⟨outcome, _, hsearch, ?_⟩
  have hrefused : outcome.status ≠ .accepted := by
    intro haccepted
    rcases (hbacktracks.first haccepted).1.descends with hlt | ⟨-, hflat⟩
    · exact Scalar.Ordered.lt_irrefl _ hlt
    · exact absurd hflat (by decide +kernel)
  have hdescent : outcome.status ≠ .notDescent := by
    rw [ne_eq, hbacktracks.notDescent_iff]
    decide +kernel
  have hexhausted : outcome.status = .shrinkLimit := by
    cases hstatus : outcome.status with
    | accepted => exact absurd hstatus hrefused
    | notDescent => exact absurd hstatus hdescent
    | shrinkLimit => rfl
  rw [hbacktracks.step_eq, hbacktracks.exhausted hexhausted]

/-- How far the steps of a configuration can be trusted. A factor above one half keeps all of them
positive; any other one takes them to zero if the cap is high enough. -/
structure StepBounds (config : SearchConfig Float) : Prop where
  within : ∀ (σ : Type) (problem : Objective σ Float) (x d gradient : Vec Float) (o o' : σ)
    (outcome : SearchOutcome Float),
    backtracking problem x d gradient config o = (.ok outcome, o') →
      0.0 ≤ outcome.step ∧ outcome.step ≤ config.initialStep
  neverStalls_iff : NeverStalls config ↔ 0.0 < config.step config.maxShrinks
  large_factor : 0.5 < config.tau → ∀ cap, NeverStalls { config with maxShrinks := cap }
  small_factor : ¬ 0.5 < config.tau → ∀ cap, 2099 ≤ cap →
    ¬ NeverStalls { config with maxShrinks := cap }

theorem neverStalls_iff_last {config : SearchConfig Float} (h : config.validate = .ok ()) :
    NeverStalls config ↔ 0.0 < config.step config.maxShrinks := by
  constructor
  · intro hpositive
    obtain ⟨outcome, o', hsearch, hstep⟩ := exists_last_step config
    rw [← hstep]
    exact hpositive _ _ _ _ _ _ _ _ hsearch
  · intro hlast σ problem x d gradient o o' outcome hsearch
    obtain ⟨hstep, hwithin⟩ := backtracking_step_eq hsearch
    rw [hstep]
    exact SearchConfig.step_pos_of_le h hwithin hlast

/-- Over doubles, no step of a search is negative or longer than the first one, but it may be
zero. -/
theorem backtracking_stepBounds {config : SearchConfig Float} (h : config.validate = .ok ()) :
    StepBounds config := by
  -- The cap has no part in what makes a configuration valid.
  have hcapped (cap : ℕ) : NeverStalls { config with maxShrinks := cap } ↔
      0.0 < config.step cap := by
    have hvalid : ({ config with maxShrinks := cap } : SearchConfig Float).validate = .ok () := h
    rw [neverStalls_iff_last hvalid, SearchConfig.step_maxShrinks]
  constructor
  case within =>
    intro σ problem x d gradient o o' outcome hsearch
    rw [(backtracking_step_eq hsearch).1]
    exact SearchConfig.step_bounds h _
  case neverStalls_iff => exact neverStalls_iff_last h
  case large_factor =>
    intro hhalf cap
    exact (hcapped cap).mpr (SearchConfig.step_pos_of_half_lt h hhalf cap)
  case small_factor =>
    intro hhalf cap hcap hpositive
    have hlast := (hcapped cap).mp hpositive
    rw [SearchConfig.step_eq_zero h hhalf hcap] at hlast
    exact Scalar.Ordered.lt_irrefl _ hlast

/-- The default configuration never returns a step of zero, and it does not do so with a higher
cap. -/
theorem default_neverStalls :
    (SearchConfig.default : SearchConfig Float).validate = .ok () ∧
      ∀ cap, NeverStalls { SearchConfig.default with maxShrinks := cap } := by
  have hvalid : (SearchConfig.default : SearchConfig Float).validate = .ok () := by decide +kernel
  exact ⟨hvalid, (backtracking_stepBounds hvalid).large_factor (by decide +kernel)⟩

/-- Next to the minimiser of a parabola, where no step against the gradient makes the value smaller,
a search that shrinks its steps fast returns a step of zero. -/
theorem parabola_stalls :
    let config : SearchConfig Float := { SearchConfig.default with tau := 1e-200, maxShrinks := 2 }
    let parabola : Problem Float := .quadratic ⟨⟨[[1.0]]⟩, [1.0], rfl, rfl⟩
    config.validate = .ok () ∧
      parabola.gradient [1.0000000000000002] = .ok [2.220446049250313e-16] ∧
      ∃ outcome, backtracking (parabola.objective Unit) [1.0000000000000002]
        [-2.220446049250313e-16] [2.220446049250313e-16] config () = (.ok outcome, ()) ∧
          ¬ 0.0 < outcome.step := by
  intro config parabola
  obtain ⟨outcome, _, hsearch, htest⟩ := exists_of_answersWith
    (backtracking (parabola.objective Unit) [1.0000000000000002] [-2.220446049250313e-16]
      [2.220446049250313e-16] config) ()
    (fun outcome _ => !decide ((0.0 : Float) < outcome.step)) (by decide +kernel)
  exact ⟨by decide +kernel, by decide +kernel, outcome, hsearch, by simpa using htest⟩

end LineSearch

end Downhill
