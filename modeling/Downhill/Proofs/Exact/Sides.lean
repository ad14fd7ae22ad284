import Mathlib
import Downhill.Proofs.Exact.Derivatives
import Downhill.Proofs.Exact.Region

/-! # Newton's method beside the saddle

The Hessian is diagonal, so a step scales each coordinate by a factor of its own. A stabilised step
never takes more than the whole of `u` and always leaves some of `v`, so a run does not change
sides. A plain step from where the Hessian is positive definite ends at such a point.
-/

open Matrix

namespace Downhill.Saddle

variable {p : Saddle ℝ} {x y z : Fin 2 → ℝ} {t : ℝ}

/-! ## One coordinate -/

/-- A step along the solution of a one-dimensional system scales the coordinate. -/
theorem scaled_of_system {a d g s raised : ℝ} (hraised : raised ≠ 0) (hsystem : raised * d = -g)
    (hg : g = a * s) (t : ℝ) : a + t * d = a * (1 - t * (s / raised)) := by
  have hd : d = -(a * s) / raised := by
    rw [eq_div_iff hraised, mul_comm, hsystem, hg]
  rw [hd]
  ring

theorem abs_scaled_le {c raised : ℝ} (hc : 0 < c) (hraised : c ≤ raised) (ht : 0 < t) (ht1 : t ≤ 1)
    (u : ℝ) : |u * (1 - t * (c / raised))| ≤ |u| := by
  have hpos : 0 < raised := hc.trans_le hraised
  have hshare : c / raised ≤ 1 := (div_le_one hpos).mpr hraised
  have hnonneg : 0 ≤ t * (c / raised) := by positivity
  have hle : t * (c / raised) ≤ 1 := mul_le_one₀ ht1 (by positivity) hshare
  rw [abs_mul, abs_of_nonneg (sub_nonneg.mpr hle)]
  exact mul_le_of_le_one_right (abs_nonneg u) (by linarith)

theorem sign_scaled {v raised : ℝ} (hpos : 0 < raised) (hraised : 3 * v ^ 2 - 1 ≤ raised)
    (ht : 0 < t) (ht1 : t ≤ 1) :
    SignType.sign (v * (1 - t * ((v ^ 2 - 1) / raised))) = SignType.sign v := by
  have hfactor : t * ((v ^ 2 - 1) / raised) < 1 := by
    rw [← mul_div_assoc, div_lt_one hpos]
    by_cases hinner : v ^ 2 ≤ 1
    · have hinside : t * (v ^ 2 - 1) ≤ 0 := by nlinarith
      linarith
    · have houtside : t * (v ^ 2 - 1) ≤ v ^ 2 - 1 := by nlinarith
      nlinarith
  rw [sign_mul, sign_pos (sub_pos.mpr hfactor), mul_one]

/-- Where `v ^ 2` is above a third, a part of the step to the minimum keeps it there. -/
theorem convex_scaled {v : ℝ} (hv : 1 < 3 * v ^ 2) (ht : 0 < t) (ht1 : t ≤ 1) :
    1 < 3 * (v * (1 - t * ((v ^ 2 - 1) / (3 * v ^ 2 - 1)))) ^ 2 := by
  have hpos : 0 < 3 * v ^ 2 - 1 := by linarith
  have hsquare : 3 * (v * (1 - t * ((v ^ 2 - 1) / (3 * v ^ 2 - 1)))) ^ 2 =
      3 * v ^ 2 * (1 - t * ((v ^ 2 - 1) / (3 * v ^ 2 - 1))) ^ 2 := by ring
  rw [hsquare]
  by_cases hinner : v ^ 2 ≤ 1
  · -- The step leads away from the saddle.
    have hshare : (v ^ 2 - 1) / (3 * v ^ 2 - 1) ≤ 0 :=
      div_nonpos_of_nonpos_of_nonneg (by linarith) hpos.le
    have hfactor : 1 ≤ 1 - t * ((v ^ 2 - 1) / (3 * v ^ 2 - 1)) := by nlinarith
    have hpow : 1 ≤ (1 - t * ((v ^ 2 - 1) / (3 * v ^ 2 - 1))) ^ 2 := one_le_pow₀ hfactor
    nlinarith
  · -- No part of the step leads beyond the end of the full one.
    have hshare : 0 ≤ (v ^ 2 - 1) / (3 * v ^ 2 - 1) := div_nonneg (by linarith) hpos.le
    have hfull : 1 - (v ^ 2 - 1) / (3 * v ^ 2 - 1) = 2 * v ^ 2 / (3 * v ^ 2 - 1) := by
      rw [eq_div_iff hpos.ne', sub_mul, div_mul_cancel₀ _ hpos.ne']
      ring
    have hfactor : 2 * v ^ 2 / (3 * v ^ 2 - 1) ≤ 1 - t * ((v ^ 2 - 1) / (3 * v ^ 2 - 1)) := by
      rw [← hfull]
      nlinarith
    have hend : 1 < 3 * v ^ 2 * (2 * v ^ 2 / (3 * v ^ 2 - 1)) ^ 2 := by
      rw [div_pow, ← mul_div_assoc, one_lt_div (by positivity)]
      have hcube : (v ^ 2) ^ 2 < (v ^ 2) ^ 3 := pow_lt_pow_right₀ (by linarith) (by omega)
      nlinarith
    calc 1 < 3 * v ^ 2 * (2 * v ^ 2 / (3 * v ^ 2 - 1)) ^ 2 := hend
      _ ≤ 3 * v ^ 2 * (1 - t * ((v ^ 2 - 1) / (3 * v ^ 2 - 1))) ^ 2 := by gcongr

/-! ## Steps -/

/-- On the same side of the saddle, and no further from the line between the minima. -/
structure SameSide (x y : Fin 2 → ℝ) : Prop where
  nearer : |y 0| ≤ |x 0|
  sign_eq : SignType.sign (y 1) = SignType.sign (x 1)

theorem SameSide.refl (x : Fin 2 → ℝ) : SameSide x x := ⟨le_rfl, rfl⟩

theorem SameSide.trans (h : SameSide x y) (h' : SameSide y z) : SameSide x z :=
  ⟨h'.nearer.trans h.nearer, h'.sign_eq.trans h.sign_eq⟩

theorem curvaturesAt_one (p : Saddle ℝ) (x : Fin 2 → ℝ) :
    p.curvaturesAt x 1 = 3 * x 1 ^ 2 - 1 := by
  norm_num [curvaturesAt]
  ring

theorem step_zero {raised : Fin 2 → ℝ} (hraised : raised 0 ≠ 0)
    (hsystem : diagonal raised *ᵥ y = -p.gradientAt x) (t : ℝ) :
    (x + t • y) 0 = x 0 * (1 - t * (p.curvature / raised 0)) := by
  have hrow : raised 0 * y 0 = -p.gradientAt x 0 := by
    simpa [mulVec_diagonal] using congrFun hsystem 0
  exact scaled_of_system hraised hrow (mul_comm _ _) t

theorem step_one {raised : Fin 2 → ℝ} (hraised : raised 1 ≠ 0)
    (hsystem : diagonal raised *ᵥ y = -p.gradientAt x) (t : ℝ) :
    (x + t • y) 1 = x 1 * (1 - t * ((x 1 ^ 2 - 1) / raised 1)) := by
  have hrow : raised 1 * y 1 = -p.gradientAt x 1 := by
    simpa [mulVec_diagonal] using congrFun hsystem 1
  have hgradient : p.gradientAt x 1 = x 1 * (x 1 ^ 2 - 1) := by
    simp only [gradientAt, cons_val]
    ring
  exact scaled_of_system hraised hrow hgradient t

/-- A step that solves with a larger diagonal in place of the Hessian does not change sides. -/
theorem sameSide_step (hc : 0 < p.curvature) {raised : Fin 2 → ℝ}
    (hraised : p.curvaturesAt x ≤ raised) (hposDef : (diagonal raised).PosDef)
    (hsystem : diagonal raised *ᵥ y = -p.gradientAt x) (ht : 0 < t) (ht1 : t ≤ 1) :
    SameSide x (x + t • y) := by
  have hpos := posDef_diagonal_iff.mp hposDef
  constructor
  · rw [step_zero (hpos 0).ne' hsystem]
    exact abs_scaled_le hc (hraised 0) ht ht1 (x 0)
  · rw [step_one (hpos 1).ne' hsystem]
    apply sign_scaled (hpos 1) _ ht ht1
    rw [← curvaturesAt_one p]
    exact hraised 1

theorem newtonRegion (hc : 0 < p.curvature) :
    NewtonRegion p.gradientAt (fun x => diagonal (p.curvaturesAt x)) fun x => 1 < 3 * x 1 ^ 2 where
  posDef x hx := by
    apply PosDef.diagonal
    intro i
    fin_cases i
    · exact hc
    · change 0 < p.curvaturesAt x 1
      rw [curvaturesAt_one]
      linarith
  step x y t hx hsystem ht ht1 := by
    have hpos : p.curvaturesAt x 1 ≠ 0 := by
      rw [curvaturesAt_one]
      linarith
    rw [step_one hpos hsystem, curvaturesAt_one]
    exact convex_scaled hx ht ht1

/-! ## Runs -/

section Runs

variable {σ : Type}

/-- No point of the solve is on another side of the saddle than the start, and none is further from
the line between the minima than a point before it. -/
structure KeepsSide (u₀ v₀ : ℝ) (result : Except (Stop ℝ) (Solution ℝ)) (session : Session σ ℝ) :
    Prop where
  points : ∀ i j, i ≤ j → j ≤ session.views.size → ∃ u v u' v',
    reached [u₀, v₀] (session.views.toList.take i) = .ok [u, v] ∧
      reached [u₀, v₀] (session.views.toList.take j) = .ok [u', v'] ∧
        |u'| ≤ |u| ∧ SignType.sign v' = SignType.sign v₀
  returned : ∀ solution, result = .ok solution → ∃ u v, solution.x = [u, v] ∧ |u| ≤ |u₀| ∧
    SignType.sign v = SignType.sign v₀

/-- No point of the solve is one where the Hessian is not positive definite, so that no direction is
refused. -/
structure StaysConvex (config : SolverConfig ℝ) (u₀ v₀ : ℝ)
    (result : Except (Stop ℝ) (Solution ℝ)) (session : Session σ ℝ) : Prop where
  points : ∀ i ≤ session.views.size, ∃ u v,
    reached [u₀, v₀] (session.views.toList.take i) = .ok [u, v] ∧ 1.0 < 3.0 * v ^ 2
  returned : ∀ solution, result = .ok solution → ∃ u v, solution.x = [u, v] ∧ 1.0 < 3.0 * v ^ 2
  unrefused : ∀ iteration, result ≠ .error (.error (.hessianNotPositiveDefinite iteration))
  answers : config.validate = .ok () → ∃ solution, result = .ok solution

variable [Kernel ℝ] {config : SolverConfig ℝ} (hinitial : config.lineSearch.initialStep ≤ 1)
  {attempts : ℕ} {u₀ v₀ : ℝ} {inherited : Option ℝ} {o : σ}
  {result : Except (Stop ℝ) (Solution ℝ)} {session : Session σ ℝ}

include hinitial

theorem staysConvex [ExactFactorisation] (hc : 0 < p.curvature) (hstart : 1 < 3 * v₀ ^ 2)
    (hrun : solve .newton attempts ((Problem.saddle p).objective σ) config [u₀, v₀]
      (.start o inherited) = (result, session)) : StaysConvex config u₀ v₀ result session := by
  obtain ⟨hpoints, hreturned, hrefused, hanswers⟩ :=
    (newtonRegion hc).solve p.computes (Problem.objective_gives _) ![u₀, v₀] hstart hinitial hrun
  refine ⟨?_, ?_, hrefused, hanswers⟩
  · intro i hi
    obtain ⟨_, hreached, x, rfl, hconvex⟩ := hpoints i hi
    exact ⟨x 0, x 1, hreached, by norm_num; exact hconvex⟩
  · intro solution hok
    obtain ⟨x, hx, hconvex⟩ := hreturned solution hok
    exact ⟨x 0, x 1, hx, by norm_num; exact hconvex⟩

variable [ExactKernel] {stabiliser : Stabiliser ℝ}

omit hinitial in
theorem confines (hc : 0 < p.curvature) (hsound : stabiliser.Sound) (start : Fin 2 → ℝ) :
    Confines (Problem.saddle p).answers p.gradientAt (.stabilised stabiliser) attempts
      (SameSide start) := by
  intro carried x iteration d hstart hd
  obtain ⟨raised, hraised, hposDef, y, hy, hsystem⟩ :=
    hsound.raises_diagonal (p.computes.hessian x) hd
  refine ⟨y, hy, ?_⟩
  intro t ht ht1
  exact hstart.trans (sameSide_step hc hraised hposDef hsystem ht ht1)

theorem keepsSide (hc : 0 < p.curvature) (hsound : stabiliser.Sound)
    (hrun : solve (.stabilised stabiliser) attempts ((Problem.saddle p).objective σ) config
      [u₀, v₀] (.start o inherited) = (result, session)) : KeepsSide u₀ v₀ result session := by
  obtain ⟨hpoints, hreturned⟩ := p.computes.solve_confined SameSide.refl (confines hc hsound)
    hinitial (Problem.objective_gives _) ![u₀, v₀] hrun
  constructor
  · intro i j hij hj
    obtain ⟨x, y, hi, hj', hxy, hy⟩ := hpoints i j hij hj
    exact ⟨x 0, x 1, y 0, y 1, hi, hj', hxy.nearer, hy.sign_eq⟩
  · intro solution hok
    obtain ⟨x, hx, hside⟩ := hreturned solution hok
    exact ⟨x 0, x 1, hx, hside.nearer, hside.sign_eq⟩

/-- Stabilised Newton stays on its side of the saddle. Plain Newton stays where the Hessian is
positive definite, if it starts there. -/
theorem solve_staysBeside (hc : 0 < p.curvature) (attempts : ℕ) (u₀ v₀ : ℝ)
    (inherited : Option ℝ) (o : σ) :
    (∀ stabiliser : Stabiliser ℝ, stabiliser.Sound → ∀ result session,
      solve (.stabilised stabiliser) attempts ((Problem.saddle p).objective σ) config [u₀, v₀]
        (.start o inherited) = (result, session) → KeepsSide u₀ v₀ result session) ∧
    (1 < 3 * v₀ ^ 2 → ∀ result session,
      solve .newton attempts ((Problem.saddle p).objective σ) config [u₀, v₀]
        (.start o inherited) = (result, session) → StaysConvex config u₀ v₀ result session) := by
  constructor
  · intro stabiliser hsound result session hrun
    exact keepsSide hinitial hc hsound hrun
  · intro hstart result session hrun
    exact staysConvex hinitial hc hstart hrun

end Runs

/-- A start on the lower side, where the Hessian is positive definite. -/
theorem default_staysBeside :
    ∃ result session solution session',
      solve (.stabilised (.diagonalShift .default)) 100
        ((Problem.saddle (.default : Saddle ℝ)).objective Unit) .default [0.5, -0.8] (.start ()) =
          (result, session) ∧
      solve .newton 100 ((Problem.saddle (.default : Saddle ℝ)).objective Unit) .default
        [0.5, -0.8] (.start ()) = (.ok solution, session') ∧
      KeepsSide 0.5 (-0.8) result session ∧
      StaysConvex .default 0.5 (-0.8) (.ok solution) session' := by
  obtain ⟨result, session, hshifted⟩ : ∃ result session,
      solve (.stabilised (.diagonalShift .default)) 100
        ((Problem.saddle (.default : Saddle ℝ)).objective Unit) .default [0.5, -0.8] (.start ()) =
          (result, session) := ⟨_, _, rfl⟩
  obtain ⟨plain, session', hplain⟩ : ∃ plain session',
      solve .newton 100 ((Problem.saddle (.default : Saddle ℝ)).objective Unit) .default
        [0.5, -0.8] (.start ()) = (plain, session') := ⟨_, _, rfl⟩
  have hc : (0 : ℝ) < Saddle.default.curvature := by norm_num [Saddle.default]
  obtain ⟨hstabilised, hnewton⟩ := solve_staysBeside SolverConfig.default_initialStep.le hc
    100 0.5 (-0.8) none ()
  have hconvex := hnewton (by norm_num) plain session' hplain
  obtain ⟨solution, rfl⟩ := hconvex.answers SolverConfig.default_validate
  exact ⟨result, session, solution, session', hshifted, hplain,
    hstabilised _ (.shift ShiftConfig.default_validate) result session hshifted, hconvex⟩

end Downhill.Saddle
