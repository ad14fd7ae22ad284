import Mathlib
import Downhill.Proofs.Exact.FullStep
import Downhill.Proofs.Run.Certificate
import Downhill.Proofs.Validity

/-! # Agreement on convex quadratics

The gradient of a strongly convex quadratic bounds the distance to the minimiser and the height over
it. At a converged solution the gradient is small, whichever solver found it, so all of them lie
near the minimiser and near each other.
-/

open Matrix

namespace Downhill

variable {n : ℕ} {S : RealMatrix n} {b x best e g : Fin n → ℝ} {mu : ℝ}

/-! ## Convexity -/

theorem dotProduct_self_sub_le (x y : Fin n → ℝ) :
    (x - y) ⬝ᵥ (x - y) ≤ 2 * (x ⬝ᵥ x) + 2 * (y ⬝ᵥ y) := by
  have hsum := dotProduct_star_self_nonneg (x + y)
  simp only [star_trivial, add_dotProduct, dotProduct_add, sub_dotProduct, dotProduct_sub] at hsum ⊢
  linarith

theorem posDef_of_convex (hsymm : S.IsSymm) (hmu : 0 < mu)
    (hconvex : ∀ x, mu * (x ⬝ᵥ x) ≤ x ⬝ᵥ S *ᵥ x) : S.PosDef := by
  apply PosDef.of_dotProduct_mulVec_pos (by simpa using hsymm)
  intro x hx
  have hpos := dotProduct_star_self_pos_iff.mpr hx
  rw [star_trivial] at hpos ⊢
  exact (mul_pos hmu hpos).trans_le (hconvex x)

section Bounds

variable (hmu : 0 < mu) (hconvex : ∀ x, mu * (x ⬝ᵥ x) ≤ x ⬝ᵥ S *ᵥ x)

include hmu hconvex

/-- The form at a displacement is at most the square of its image, up to the factor. -/
theorem form_le_of_convex (hg : S *ᵥ e = g) : mu * (e ⬝ᵥ g) ≤ g ⬝ᵥ g := by
  have hform := hconvex e
  rw [hg] at hform
  have hsquare := dotProduct_star_self_nonneg (mu • e - g)
  simp only [star_trivial, sub_dotProduct, dotProduct_sub, smul_dotProduct, dotProduct_smul,
    smul_eq_mul, dotProduct_comm g e] at hsquare
  have hscaled := mul_le_mul_of_nonneg_left hform hmu.le
  linarith

theorem distance_le_of_convex (hg : S *ᵥ e = g) : mu ^ 2 * (e ⬝ᵥ e) ≤ g ⬝ᵥ g := by
  have hform := hconvex e
  rw [hg] at hform
  calc mu ^ 2 * (e ⬝ᵥ e) = mu * (mu * (e ⬝ᵥ e)) := by ring
    _ ≤ mu * (e ⬝ᵥ g) := mul_le_mul_of_nonneg_left hform hmu.le
    _ ≤ g ⬝ᵥ g := form_le_of_convex hmu hconvex hg

theorem height_le_of_convex (hsymm : S.IsSymm) (hbest : S *ᵥ best = b) (x : Fin n → ℝ) :
    quadraticForm S b x - quadraticForm S b best ≤
      (S *ᵥ x - b) ⬝ᵥ (S *ᵥ x - b) / (2 * mu) := by
  have hg : S *ᵥ (x - best) = S *ᵥ x - b := by rw [mulVec_sub, hbest]
  have hvalue := quadraticForm_add hsymm b best (x - best)
  rw [add_sub_cancel, hbest, sub_self, zero_dotProduct, hg] at hvalue
  have hform := form_le_of_convex hmu hconvex hg
  rw [hvalue, le_div_iff₀ (by positivity)]
  linarith

end Bounds

/-! ## Converged solutions -/

section Solutions

variable [Kernel ℝ]

/-- A solver with the tolerance `eps` and some rule, start and line search ends with this solution,
and it has converged. The rule may have been used before. -/
def ConvergesTo (p : Problem ℝ) (eps : ℝ) (solution : Solution ℝ) : Prop :=
  ∃ (σ : Type) (rule : Rule ℝ) (attempts : ℕ) (config : SolverConfig ℝ) (x0 : Vec ℝ)
    (inherited : Option ℝ) (o : σ) (session : Session σ ℝ), config.tolerance = eps ∧
      solution.converged = true ∧
      solve rule attempts (p.objective σ) config x0 (.start o inherited) = (.ok solution, session)

namespace ConvergesTo

variable {p : Problem ℝ} {eps : ℝ} {solution : Solution ℝ}

theorem tolerance_pos (h : ConvergesTo p eps solution) : 0 < eps := by
  obtain ⟨σ, rule, attempts, config, x0, inherited, o, session, rfl, -, hrun⟩ := h
  have htolerance := (SolverConfig.validate_ok (admissible_of_ok hrun).config_valid).1
  norm_num at htolerance
  exact htolerance

theorem gradient_le (h : ConvergesTo p eps solution) :
    p.value solution.x = .ok solution.value ∧
      ∃ gradient, p.gradient solution.x = .ok gradient ∧ gradient.normSq ≤ 2 * eps ^ 2 := by
  obtain ⟨σ, rule, attempts, config, x0, inherited, o, session, rfl, hconverged, hrun⟩ := h
  have hcertified := solve_certified (Problem.objective_gives p) hrun
  obtain ⟨gradient, hgradient, hnorm⟩ := hcertified.gradient
  have hthreshold := hcertified.converged_iff.mp hconverged
  rw [hnorm] at hthreshold
  refine ⟨hcertified.value, gradient, hgradient, ?_⟩
  norm_num at hthreshold
  linarith

end ConvergesTo

/-- A converged solution of a strongly convex quadratic has coordinates near the minimiser. -/
theorem Quadratic.Represents.near_minimiser {q : Quadratic ℝ} (hq : q.Represents S b)
    (hsymm : S.IsSymm) (hmu : 0 < mu) (hconvex : ∀ x, mu * (x ⬝ᵥ x) ≤ x ⬝ᵥ S *ᵥ x)
    (hbest : S *ᵥ best = b) {eps : ℝ} {solution : Solution ℝ}
    (h : ConvergesTo (.quadratic q) eps solution) :
    ∃ v : Fin n → ℝ, solution.x = List.ofFn v ∧
      mu ^ 2 * ((v - best) ⬝ᵥ (v - best)) ≤ 2 * eps ^ 2 ∧
      solution.value - quadraticForm S b best ≤ eps ^ 2 / mu := by
  obtain ⟨hvalue, gradient, hgradient, hnorm⟩ := h.gradient_le
  obtain ⟨v, hv, rfl⟩ := hq.exists_of_gradient hgradient
  rw [Vec.normSq, Vec.inner_ofFn] at hnorm
  have hanswer : (.ok (quadraticForm S b v) : Except Fault ℝ) = .ok solution.value := by
    rw [← hq.value_ofFn, ← hv]
    exact hvalue
  have hg : S *ᵥ (v - best) = S *ᵥ v - b := by rw [mulVec_sub, hbest]
  refine ⟨v, hv, (distance_le_of_convex hmu hconvex hg).trans hnorm, ?_⟩
  rw [← Except.ok.inj hanswer]
  calc quadraticForm S b v - quadraticForm S b best
      ≤ (S *ᵥ v - b) ⬝ᵥ (S *ᵥ v - b) / (2 * mu) := height_le_of_convex hmu hconvex hsymm hbest v
    _ ≤ 2 * eps ^ 2 / (2 * mu) := by gcongr
    _ = eps ^ 2 / mu := mul_div_mul_left _ _ two_ne_zero

/-- On a strongly convex quadratic, the converged solutions of all solvers lie near the minimiser,
and for one tolerance they lie near each other. -/
theorem solve_agrees [ExactFactorisation] {A : RealMatrix n} {q : Quadratic ℝ}
    (hmake : Quadratic.make (tabulate A) (List.ofFn b) = .ok q) (hmu : 0 < mu)
    (hconvex : ∀ x, mu * (x ⬝ᵥ x) ≤ x ⬝ᵥ symmetricPart A *ᵥ x) :
    ∃ best least, q.minimiser = .ok (some best) ∧ q.value best = .ok least ∧
      (∀ eps solution, ConvergesTo (.quadratic q) eps solution →
        (∃ e, Vec.sub solution.x best = .ok e ∧ mu ^ 2 * e.normSq ≤ 2 * eps ^ 2) ∧
          solution.value - least ≤ eps ^ 2 / mu) ∧
      ∀ eps solution solution', ConvergesTo (.quadratic q) eps solution →
        ConvergesTo (.quadratic q) eps solution' →
          ∃ e, Vec.sub solution.x solution'.x = .ok e ∧ e.norm ≤ 2 * √2 * eps / mu := by
  have hq := Quadratic.represents_of_make hmake
  have hsymm := symmetricPart_isSymm A
  obtain ⟨best, hminimiser, hbest⟩ := hq.exists_minimiser (posDef_of_convex hsymm hmu hconvex)
  have hnear (eps : ℝ) (solution : Solution ℝ) (h : ConvergesTo (.quadratic q) eps solution) :=
    hq.near_minimiser hsymm hmu hconvex hbest h
  refine ⟨_, _, hminimiser, hq.value_ofFn best, ?_, ?_⟩
  · intro eps solution h
    obtain ⟨v, hv, hdistance, hheight⟩ := hnear eps solution h
    refine ⟨⟨_, by rw [hv, Vec.sub_ofFn], ?_⟩, hheight⟩
    rwa [Vec.normSq, Vec.inner_ofFn]
  · intro eps solution solution' h h'
    obtain ⟨v, hv, hdistance, -⟩ := hnear eps solution h
    obtain ⟨v', hv', hdistance', -⟩ := hnear eps solution' h'
    have heps := h.tolerance_pos
    refine ⟨_, by rw [hv, hv', Vec.sub_ofFn], ?_⟩
    have hapart := dotProduct_self_sub_le (v - best) (v' - best)
    rw [sub_sub_sub_cancel_right] at hapart
    have hsquares : (v - v') ⬝ᵥ (v - v') ≤ (2 * √2 * eps / mu) ^ 2 := by
      have hroot : (2 * √2 * eps / mu) ^ 2 = 8 * eps ^ 2 / mu ^ 2 := by
        rw [div_pow, mul_pow, mul_pow, Real.sq_sqrt (by norm_num)]
        ring
      rw [hroot, le_div_iff₀ (by positivity)]
      nlinarith [sq_nonneg mu]
    change √(Vec.inner _ _) ≤ _
    rw [Vec.inner_ofFn]
    exact Real.sqrt_le_iff.mpr ⟨by positivity, hsquares⟩

end Solutions

/-- A matrix that is not symmetric. Newton's method and its shifted variant, which carries a shift
over from an earlier run, step to the minimiser from two starts. -/
theorem skewed_agrees :
    ∃ (q : Quadratic ℝ) (best : Vec ℝ) (plain shifted : Solution ℝ)
      (session session' : Session Unit ℝ) (e e' : Vec ℝ),
      Quadratic.make (tabulate !![1, 2; -2, 1]) [3, -1] = .ok q ∧
      q.minimiser = .ok (some best) ∧
      solve .newton 0 ((Problem.quadratic q).objective Unit) oneStep [0, 0] (.start ()) =
        (.ok plain, session) ∧
      solve (.stabilised (.diagonalShift .default)) 0 ((Problem.quadratic q).objective Unit) oneStep
        [5, 7] (.start () (some 0.1)) = (.ok shifted, session') ∧
      plain.iterations = 1 ∧ plain.converged ∧ shifted.iterations = 1 ∧ shifted.converged ∧
      Vec.sub plain.x best = .ok e ∧ e.normSq ≤ 2 * 1e-4 ^ 2 ∧
      Vec.sub plain.x shifted.x = .ok e' ∧ e'.norm ≤ 2 * √2 * 1e-4 / 1 := by
  obtain ⟨q, hmake⟩ := Quadratic.exists_make !![1, 2; -2, 1] ![3, -1]
  have hq := Quadratic.represents_of_make hmake
  have hconvex (x : Fin 2 → ℝ) :
      1 * (x ⬝ᵥ x) ≤ x ⬝ᵥ symmetricPart !![1, 2; -2, 1] *ᵥ x := by
    rw [symmetricPart_skewed, one_mulVec, one_mul]
  have hposDef : (symmetricPart !![1, 2; -2, 1]).PosDef :=
    posDef_of_convex (symmetricPart_isSymm _) one_pos hconvex
  have hsteps {rule : Rule ℝ} (hrule : rule.Newtonian) (x : Fin 2 → ℝ) (inherited : Option ℝ)
      (habove : oneStep.threshold < Vec.normSq (List.ofFn (x - ![3, -1]))) :
      ∃ solution session, solve rule 0 ((Problem.quadratic q).objective Unit) oneStep (List.ofFn x)
          (.start () inherited) = (.ok solution, session) ∧
        solution.iterations = 1 ∧ solution.converged := by
    have hunmet : oneStep.threshold <
        Vec.normSq (List.ofFn (symmetricPart !![1, 2; -2, 1] *ᵥ x - ![3, -1])) := by
      rwa [symmetricPart_skewed, one_mulVec]
    obtain ⟨next, direction, session, -, hsolve, -⟩ := hrule.solve_eq hq hposDef oneStep_validate
      rfl oneStep_alpha_le le_rfl hunmet 0 inherited ()
    exact ⟨_, session, hsolve, rfl, rfl⟩
  obtain ⟨plain, session, hplain, hiterations, hconverged⟩ := hsteps .newton ![0, 0] none
    (by norm_num [oneStep, Vec.normSq, Vec.inner_eq_sum, SolverConfig.threshold])
  obtain ⟨shifted, session', hshifted, hiterations', hconverged'⟩ :=
    hsteps (.shifted ShiftConfig.default_validate) ![5, 7] (some 0.1)
      (by norm_num [oneStep, Vec.normSq, Vec.inner_eq_sum, SolverConfig.threshold])
  have hto : ConvergesTo (.quadratic q) 1e-4 plain :=
    ⟨_, _, _, _, _, _, _, _, rfl, hconverged, hplain⟩
  have hto' : ConvergesTo (.quadratic q) 1e-4 shifted :=
    ⟨_, _, _, _, _, _, _, _, rfl, hconverged', hshifted⟩
  obtain ⟨best, least, hminimiser, -, hnear, hmutual⟩ := solve_agrees hmake one_pos hconvex
  obtain ⟨⟨e, he, hdistance⟩, -⟩ := hnear _ _ hto
  obtain ⟨e', he', happart⟩ := hmutual _ _ _ hto hto'
  rw [one_pow, one_mul] at hdistance
  exact ⟨q, best, plain, shifted, session, session', e, e', by simpa using hmake, hminimiser,
    by simpa using hplain, by simpa using hshifted, hiterations, hconverged, hiterations',
    hconverged', he, hdistance, he', happart⟩

end Downhill
