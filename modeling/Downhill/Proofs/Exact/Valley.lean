import Mathlib
import Downhill.Proofs.Exact.Derivatives
import Downhill.Proofs.Exact.Region

/-! # Newton's method in the Rosenbrock valley

The Hessian of the valley is positive definite below a ridge that runs along the floor, at a height
that depends on `b` alone. A part of Newton's step scales the height over the floor down and then
lowers the point further, so plain Newton stays below the ridge.
-/

open Matrix

namespace Downhill.Rosenbrock

variable {p : Rosenbrock ℝ} {x y : Fin 2 → ℝ}

/-! ## The region -/

/-- The form of the Hessian, completed to squares. -/
theorem hessianAt_form (p : Rosenbrock ℝ) (x h : Fin 2 → ℝ) :
    h ⬝ᵥ p.hessianAt x *ᵥ h = 2 * p.b * (h 1 - 2 * x 0 * h 0) ^ 2 +
      2 * (1 - 2 * p.b * (x 1 - x 0 ^ 2)) * h 0 ^ 2 := by
  simp only [hessianAt, dotProduct, mulVec, Fin.sum_univ_two, of_apply, cons_val]
  norm_num
  ring

theorem lt_ridge_iff (hb : 0 < p.b) (r : ℝ) : r < 1 / (2 * p.b) ↔ 0 < 1 - 2 * p.b * r := by
  rw [lt_div_iff₀ (by positivity), sub_pos, mul_comm]

theorem posDef_hessianAt (hb : 0 < p.b) (hx : x 1 - x 0 ^ 2 < 1 / (2 * p.b)) :
    (p.hessianAt x).PosDef := by
  have hbelow := (lt_ridge_iff hb _).mp hx
  refine .of_dotProduct_mulVec_pos (by simpa using p.hessianAt_isSymm x) fun h hh => ?_
  rw [star_trivial, hessianAt_form]
  by_cases hzero : h 0 = 0
  · have hone : h 1 ≠ 0 := by
      intro hone
      apply hh
      ext i
      fin_cases i
      · exact hzero
      · exact hone
    rw [hzero]
    have hsquare : 0 < h 1 ^ 2 := by positivity
    nlinarith
  · have hsquare : 0 < h 0 ^ 2 := by positivity
    have hrest := mul_nonneg hb.le (sq_nonneg (h 1 - 2 * x 0 * h 0))
    nlinarith [mul_pos hbelow hsquare]

/-- The height over the floor after a part of Newton's step. -/
theorem residual_step (hb : p.b ≠ 0) (hsystem : p.hessianAt x *ᵥ y = -p.gradientAt x) (t : ℝ) :
    (x + t • y) 1 - (x + t • y) 0 ^ 2 = (1 - t) * (x 1 - x 0 ^ 2) - t ^ 2 * y 0 ^ 2 := by
  have hrow : 2 * p.b * (y 1 - 2 * x 0 * y 0 + (x 1 - x 0 ^ 2)) = 0 := by
    have hsecond := congrFun hsystem 1
    simp only [hessianAt, gradientAt, mulVec, dotProduct, Fin.sum_univ_two, of_apply, cons_val,
      Pi.neg_apply] at hsecond
    norm_num at hsecond
    linarith
  have hy : y 1 = 2 * x 0 * y 0 - (x 1 - x 0 ^ 2) := by
    have hfactor := (mul_eq_zero.mp hrow).resolve_left (by positivity)
    linarith
  simp only [Pi.add_apply, Pi.smul_apply, smul_eq_mul, hy]
  ring

theorem newtonRegion (hb : 0 < p.b) :
    NewtonRegion p.gradientAt p.hessianAt fun x => x 1 - x 0 ^ 2 < 1 / (2 * p.b) where
  posDef _ hx := posDef_hessianAt hb hx
  step x y t hx hsystem hpos hle := by
    have hridge : 0 < 1 / (2 * p.b) := by positivity
    have hlower := mul_nonneg (sq_nonneg t) (sq_nonneg (y 0))
    have hscaled : (1 - t) * (x 1 - x 0 ^ 2) < 1 / (2 * p.b) := by
      rcases le_total 0 (x 1 - x 0 ^ 2) with hup | hdown
      · nlinarith
      · nlinarith
    rw [residual_step hb.ne' hsystem]
    linarith

/-! ## Runs -/

/-- Started below the ridge, plain Newton stays there, where the Hessian is positive definite. -/
theorem solve_belowRidge [Kernel ℝ] [ExactFactorisation] {σ : Type} (hb : 0 < p.b) {u v : ℝ}
    (hstart : v - u ^ 2 < 1 / (2 * p.b)) {config : SolverConfig ℝ}
    (hinitial : config.lineSearch.initialStep ≤ 1) {attempts : ℕ} {inherited : Option ℝ} {o : σ}
    {result : Except (Stop ℝ) (Solution ℝ)} {session : Session σ ℝ}
    (hrun : solve .newton attempts ((Problem.rosenbrock p).objective σ) config [u, v]
      (.start o inherited) = (result, session)) :
    (∀ i ≤ session.views.size, ∃ x y, reached [u, v] (session.views.toList.take i) = .ok [x, y] ∧
      y - x ^ 2 < 1 / (2 * p.b) ∧
        ∃ S : RealMatrix 2, p.hessian [x, y] = .ok (tabulate S) ∧ S.PosDef) ∧
    (∀ solution, result = .ok solution → ∃ x y, solution.x = [x, y] ∧ y - x ^ 2 < 1 / (2 * p.b)) ∧
    (∀ iteration, result ≠ .error (.error (.hessianNotPositiveDefinite iteration))) ∧
    (config.validate = .ok () → ∃ solution, result = .ok solution) := by
  obtain ⟨hpoints, hreturned, hrefused, hanswers⟩ :=
    (newtonRegion hb).solve p.computes (Problem.objective_gives _) ![u, v] hstart hinitial hrun
  refine ⟨fun i hi => ?_, fun solution hok => ?_, hrefused, hanswers⟩
  · obtain ⟨_, hreached, x, rfl, hbelow⟩ := hpoints i hi
    exact ⟨x 0, x 1, hreached, hbelow, _, p.computes.hessian x, posDef_hessianAt hb hbelow⟩
  · obtain ⟨x, hx, hbelow⟩ := hreturned solution hok
    exact ⟨x 0, x 1, hx, hbelow⟩

/-- The valley with its customary parameters and start. -/
theorem default_belowRidge :
    ∃ solution session x y,
      solve .newton 0 ((Problem.rosenbrock (.default : Rosenbrock ℝ)).objective Unit) .default
        [-1.2, 1] (.start ()) = (.ok solution, session) ∧
      solution.x = [x, y] ∧ y - x ^ 2 < 1 / 200 := by
  obtain ⟨result, session, hrun⟩ : ∃ result session,
      solve .newton 0 ((Problem.rosenbrock (.default : Rosenbrock ℝ)).objective Unit) .default
        [-1.2, 1] (.start ()) = (result, session) := ⟨_, _, rfl⟩
  have hb : (0 : ℝ) < Rosenbrock.default.b := by norm_num [Rosenbrock.default]
  have hstart : (1 : ℝ) - (-1.2) ^ 2 < 1 / (2 * Rosenbrock.default.b) := by
    norm_num [Rosenbrock.default]
  obtain ⟨-, hreturned, -, hanswers⟩ :=
    solve_belowRidge hb hstart SolverConfig.default_initialStep.le hrun
  obtain ⟨solution, rfl⟩ := hanswers SolverConfig.default_validate
  obtain ⟨x, y, hx, hbelow⟩ := hreturned solution rfl
  norm_num [Rosenbrock.default] at hbelow
  exact ⟨solution, session, x, y, hrun, hx, by linarith⟩

end Downhill.Rosenbrock
