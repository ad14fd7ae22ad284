import Mathlib
import Downhill.Proofs.Exact.Derivatives
import Downhill.Proofs.Exact.FullStep
import Downhill.Proofs.Search.FirstStep
import Downhill.Proofs.Validity

/-! # Small steps

Along a direction that points down, all small steps are acceptable: the value falls nearly as fast
as the slope promises, and a valid configuration asks for no more than a share of that. The steps of
a search shrink to nothing, so one of them is accepted unless the cap comes first.
-/

open Matrix Filter Topology

namespace Downhill

variable {n : ℕ}

/-! ## Values along a direction -/

namespace IsGradientAt

variable {f : (Fin n → ℝ) → ℝ} {g x d : Fin n → ℝ} (h : IsGradientAt f g x)

include h

/-- For small steps, the value stays below every line that is steeper than the slope. -/
theorem eventually_lt {c : ℝ} (hc : g ⬝ᵥ d < c) : ∀ᶠ t in 𝓝[>] 0, f (x + t • d) < f x + c * t := by
  have hline : HasLineDerivAt ℝ f (g ⬝ᵥ d) x d := HasFDerivAt.hasLineDerivAt h d
  have hquotient := hline.tendsto_slope_zero_right.eventually_lt_const hc
  filter_upwards [hquotient, self_mem_nhdsWithin] with t ht hpos
  rw [smul_eq_mul, inv_mul_lt_iff₀ hpos] at ht
  linarith

theorem eventually_acceptable (hdown : g ⬝ᵥ d < 0) {alpha : ℝ} (hpos : 0 < alpha)
    (hshare : alpha < 1) :
    ∀ᶠ t in 𝓝[>] 0, LineSearch.acceptable alpha (f x) (g ⬝ᵥ d) t (f (x + t • d)) = true := by
  have hsteeper : g ⬝ᵥ d < alpha * (g ⬝ᵥ d) := by nlinarith
  have hfalls : alpha * (g ⬝ᵥ d) < 0 := mul_neg_of_pos_of_neg hpos hdown
  filter_upwards [h.eventually_lt hsteeper, self_mem_nhdsWithin] with t hbelow ht
  have hdecrease : alpha * (g ⬝ᵥ d) * t < 0 := mul_neg_of_neg_of_pos hfalls ht
  exact acceptable_of_le (by linarith) (by linarith)

end IsGradientAt

/-! ## Steps of a search -/

namespace SearchConfig

variable {config : SearchConfig ℝ}

/-- What a valid configuration promises of its numbers, in exact arithmetic. -/
theorem bounds_of_valid (h : config.validate = .ok ()) : 0 < config.initialStep ∧
    (0 < config.alpha ∧ config.alpha < 1) ∧ 0 < config.tau ∧ config.tau < 1 := by
  obtain ⟨hinitial, halpha, htau⟩ := validate_ok h
  simp only [inUnitInterval, Bool.and_eq_true, decide_eq_true_eq] at halpha htau
  norm_num at hinitial halpha htau
  exact ⟨hinitial, halpha, htau⟩

theorem step_eq (config : SearchConfig ℝ) (k : ℕ) :
    config.step k = config.initialStep * config.tau ^ k := by
  induction k with
  | zero => rw [step, pow_zero, mul_one]
  | succ k ih => rw [step, ih, pow_succ, mul_assoc]

theorem step_pos (h : config.validate = .ok ()) (k : ℕ) : 0 < config.step k := by
  obtain ⟨hinitial, -, hpos, -⟩ := bounds_of_valid h
  rw [step_eq]
  exact mul_pos hinitial (pow_pos hpos k)

/-- The steps are positive and shrink to nothing. -/
theorem tendsto_step (h : config.validate = .ok ()) : Tendsto config.step atTop (𝓝[>] 0) := by
  obtain ⟨-, -, hpos, hlt⟩ := bounds_of_valid h
  refine tendsto_nhdsWithin_iff.mpr ⟨?_, .of_forall (step_pos h)⟩
  have hpow := tendsto_pow_atTop_nhds_zero_of_lt_one hpos.le hlt
  simpa only [funext config.step_eq, mul_zero] using hpow.const_mul config.initialStep

end SearchConfig

/-! ## The problems -/

/-- The problems that can be made: any of them, a quadratic from a matrix and a linear term that
fit. -/
inductive Problem.Made : Problem ℝ → Prop
  | quadratic {matrix : Downhill.Matrix ℝ} {linear : Vec ℝ} {q : Quadratic ℝ} :
      Quadratic.make matrix linear = .ok q → Made (.quadratic q)
  | rosenbrock (p : Rosenbrock ℝ) : Made (.rosenbrock p)
  | saddle (p : Saddle ℝ) : Made (.saddle p)
  | spring (p : Spring ℝ) : Made (.spring p)

theorem Quadratic.exists_of_make {matrix : Downhill.Matrix ℝ} {linear : Vec ℝ} {q : Quadratic ℝ}
    (h : make matrix linear = .ok q) :
    ∃ (n : ℕ) (A : RealMatrix n) (b : Fin n → ℝ), make (tabulate A) (List.ofFn b) = .ok q := by
  by_cases hsquare : matrix.isSquare = true
  · obtain ⟨n, A, rfl⟩ := exists_eq_tabulate hsquare
    by_cases hheight : n = linear.length
    · obtain ⟨b, rfl⟩ := Vec.exists_eq_ofFn linear hheight.symm
      exact ⟨n, A, b, h⟩
    · simp [make, hsquare, hheight] at h
  · simp [make, hsquare] at h

/-- Values and gradients as functions of the coordinates. How a spring reports its Hessian makes no
difference to them. -/
theorem Problem.Made.exists_gradient [Kernel ℝ] {p : Problem ℝ} (h : p.Made) :
    ∃ (n : ℕ) (f : (Fin n → ℝ) → ℝ) (g : (Fin n → ℝ) → Fin n → ℝ), p.unknowns = n ∧
      ∀ x, p.value (List.ofFn x) = .ok (f x) ∧ p.gradient (List.ofFn x) = .ok (List.ofFn (g x)) ∧
        IsGradientAt f (g x) x := by
  cases h with
  | quadratic hmake =>
      obtain ⟨n, A, b, hmake⟩ := Quadratic.exists_of_make hmake
      have hq := Quadratic.represents_of_make hmake
      have hsymm := symmetricPart_isSymm A
      exact ⟨n, _, _, hq.unknowns_eq, fun x => ⟨hq.value_ofFn x, hq.gradient_ofFn x,
        (quadraticForm_expands hsymm b).isGradientAt (fun _ => hsymm) x⟩⟩
  | rosenbrock p =>
      exact ⟨2, _, _, rfl, fun x => ⟨rfl, rfl, p.expands.isGradientAt p.hessianAt_isSymm x⟩⟩
  | saddle p =>
      exact ⟨2, _, _, rfl, fun x =>
        ⟨rfl, rfl, p.expands.isGradientAt (fun _ => isSymm_diagonal _) x⟩⟩
  | spring p =>
      exact ⟨4, _, _, rfl, fun x => ⟨rfl, rfl, p.expands.isGradientAt p.hessianAt_isSymm x⟩⟩

/-! ## Searches -/

theorem PointsDown.exists_coordinates {g : Fin n → ℝ} {d : Vec ℝ} (h : PointsDown (List.ofFn g) d) :
    ∃ v : Fin n → ℝ, d = List.ofFn v ∧ g ⬝ᵥ v < 0 := by
  obtain ⟨slope, hslope, hdown⟩ := h
  have hlength : d.length = n := by
    unfold Vec.dot at hslope
    split at hslope
    · rename_i hfits
      exact hfits.symm.trans List.length_ofFn
    · contradiction
  obtain ⟨v, rfl⟩ := Vec.exists_eq_ofFn d hlength
  rw [Vec.dot_ofFn] at hslope
  cases hslope
  exact ⟨v, rfl, hdown⟩

theorem LineSearch.trial_ofFn (x d : Fin n → ℝ) (t : ℝ) :
    LineSearch.trial (List.ofFn x) (List.ofFn d) t = List.ofFn (x + t • d) := by
  have hmove := LineSearch.move_eq_trial (x := List.ofFn x) (d := List.ofFn d) (by simp) t
  rw [Vec.move_ofFn] at hmove
  exact (Except.ok.inj hmove).symm

/-- A function of the coordinates as one of vectors. -/
def onVec (f : (Fin n → ℝ) → ℝ) (x : Vec ℝ) : ℝ := f fun i => x.getD i 0

@[simp] theorem onVec_ofFn (f : (Fin n → ℝ) → ℝ) (x : Fin n → ℝ) : onVec f (List.ofFn x) = f x := by
  simp [onVec]

theorem value_eq_onVec {f : Answers ℝ} {value : (Fin n → ℝ) → ℝ}
    (h : ∀ x, f.value (List.ofFn x) = .ok (value x)) {y : Vec ℝ} (hy : y.length = n) :
    f.value y = .ok (onVec value y) := by
  obtain ⟨y, rfl⟩ := Vec.exists_eq_ofFn y hy
  rw [h, onVec_ofFn]

open LineSearch in
/-- One of the steps of a search is acceptable, and there is a first one. -/
theorem IsGradientAt.exists_first {f : (Fin n → ℝ) → ℝ} {g x d : Fin n → ℝ}
    (h : IsGradientAt f g x) (hdown : g ⬝ᵥ d < 0) {config : SearchConfig ℝ}
    (hvalid : config.validate = .ok ()) :
    ∃ k, AcceptableAt (onVec f) config (List.ofFn x) (List.ofFn d) (g ⬝ᵥ d) k ∧
      ∀ j < k, ¬ AcceptableAt (onVec f) config (List.ofFn x) (List.ofFn d) (g ⬝ᵥ d) j := by
  classical
  obtain ⟨-, ⟨hpos, hshare⟩, -⟩ := SearchConfig.bounds_of_valid hvalid
  have hsmall := (SearchConfig.tendsto_step hvalid).eventually
    (h.eventually_acceptable hdown hpos hshare)
  have hexists : ∃ k, AcceptableAt (onVec f) config (List.ofFn x) (List.ofFn d) (g ⬝ᵥ d) k := by
    obtain ⟨k, hk⟩ := hsmall.exists
    refine ⟨k, acceptableAt_iff.mpr ?_⟩
    rwa [trial_ofFn, onVec_ofFn, onVec_ofFn]
  exact ⟨Nat.find hexists, Nat.find_spec hexists, fun j hj => Nat.find_min hexists hj⟩

open LineSearch in
/-- From every point and along every direction that points down, the search accepts a step as soon
as the cap allows enough shrinks, and a higher cap does not change its outcome. -/
theorem Problem.Made.backtracking_settles [Kernel ℝ] {p : Problem ℝ} (h : p.Made) {x : Vec ℝ}
    (hx : x.length = p.unknowns) {config : SearchConfig ℝ} (hvalid : config.validate = .ok ()) :
    ∃ g, p.gradient x = .ok g ∧ ∀ d, PointsDown g d →
      ∃ (outcome : SearchOutcome ℝ) (enough : ℕ), outcome.status = .accepted ∧
        ∀ cap, enough ≤ cap → ∀ (σ : Type) (o : σ),
          (backtracking (p.objective σ) x d g { config with maxShrinks := cap } o).1 =
            .ok outcome := by
  obtain ⟨n, f, g, hunknowns, hanswers⟩ := h.exists_gradient
  obtain ⟨x, rfl⟩ := Vec.exists_eq_ofFn x (hx.trans hunknowns)
  obtain ⟨-, hgradient, hderivative⟩ := hanswers x
  refine ⟨_, hgradient, fun d hd => ?_⟩
  obtain ⟨d, rfl, hdown⟩ := hd.exists_coordinates
  obtain ⟨k, hk, hrefused⟩ := hderivative.exists_first hdown hvalid
  refine ⟨⟨config.step k, .accepted, k, g x ⬝ᵥ d⟩, k, rfl, fun cap hcap σ o => ?_⟩
  have hvalue (y : Vec ℝ) (hy : y.length = (List.ofFn x).length) :=
    value_eq_onVec (f := p.answers) (fun y => (hanswers y).1) (hy.trans List.length_ofFn)
  have hlevel : ¬ (0.0 : ℝ) < g x ⬝ᵥ d := by
    norm_num
    exact hdown.le
  obtain ⟨outcome, looks, hbacktracks, hsearch⟩ := backtracking_backtracks p.objective_gives
    (List.ofFn x) (List.ofFn d) (List.ofFn (g x)) (by simp) (by simp) hvalue
    { config with maxShrinks := cap } o
  rw [Vec.inner_ofFn] at hbacktracks
  have hcapped (j : ℕ) : AcceptableAt (onVec f) { config with maxShrinks := cap } (List.ofFn x)
      (List.ofFn d) (g x ⬝ᵥ d) j ↔ AcceptableAt (onVec f) config (List.ofFn x) (List.ofFn d)
        (g x ⬝ᵥ d) j := by
    simp only [acceptableAt_iff, SearchConfig.step_maxShrinks]
  have houtcome := hbacktracks.outcome_eq hlevel hcap ((hcapped k).mpr hk)
    fun j hj => (hcapped j).not.mpr (hrefused j hj)
  rw [hsearch, houtcome, SearchConfig.step_maxShrinks]

open LineSearch in
/-- Against the gradient from the usual start in the Rosenbrock valley. -/
theorem rosenbrock_settles :
    (Problem.rosenbrock (.default : Rosenbrock ℝ)).gradient [-1.2, 1] = .ok [-215.6, -88] ∧
    ∃ (outcome : SearchOutcome ℝ) (enough : ℕ), outcome.status = .accepted ∧
      ∀ cap, enough ≤ cap →
        (backtracking ((Problem.rosenbrock (.default : Rosenbrock ℝ)).objective Unit) [-1.2, 1]
          [215.6, 88] [-215.6, -88] { SearchConfig.default with maxShrinks := cap } ()).1 =
            .ok outcome := by
  have hgradient :
      (Problem.rosenbrock (.default : Rosenbrock ℝ)).gradient [-1.2, 1] = .ok [-215.6, -88] := by
    refine congrArg Except.ok ?_
    norm_num [Rosenbrock.default]
  have hdown : PointsDown [-215.6, -88] [215.6, 88] :=
    ⟨_, rfl, by norm_num [Vec.inner_eq_sum]⟩
  obtain ⟨g, hg, hsettles⟩ := (Problem.Made.rosenbrock .default).backtracking_settles
    (x := [-1.2, 1]) rfl SearchConfig.default_validate
  rw [hgradient] at hg
  cases hg
  obtain ⟨outcome, enough, haccepted, hsearch⟩ := hsettles _ hdown
  exact ⟨hgradient, outcome, enough, haccepted, fun cap hcap => hsearch cap hcap Unit ()⟩

end Downhill
