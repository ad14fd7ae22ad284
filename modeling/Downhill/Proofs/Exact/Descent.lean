import Mathlib
import Downhill.Proofs.Exact.Kernel
import Downhill.Proofs.Run.Outcome

/-! # Directions in exact arithmetic

Against the gradient the slope is the negated squared norm. A direction that solves a positive
definite system has a slope below zero too, since the gradient it was found for is not zero: a
direction is asked for after the test for convergence has failed.
-/

open Matrix

namespace Downhill

variable {σ : Type} {n : ℕ}

/-! ## Slopes -/

theorem dotProduct_neg_of_posDef {S : RealMatrix n} (hS : S.PosDef) {g d : Fin n → ℝ} (hg : g ≠ 0)
    (hd : S *ᵥ d = -g) : g ⬝ᵥ d < 0 := by
  have hnonzero : d ≠ 0 := by
    rintro rfl
    rw [mulVec_zero] at hd
    exact hg (neg_eq_zero.mp hd.symm)
  have hpos := hS.dotProduct_mulVec_pos hnonzero
  rw [hd, star_trivial, dotProduct_neg, dotProduct_comm] at hpos
  exact neg_pos.mp hpos

theorem ne_zero_of_normSq_pos {g : Fin n → ℝ} (h : 0 < Vec.normSq (List.ofFn g)) : g ≠ 0 := by
  rintro rfl
  rw [Vec.normSq, Vec.inner_ofFn, zero_dotProduct] at h
  exact lt_irrefl 0 h

/-- A direction along which the gradient falls. -/
def PointsDown (gradient d : Vec ℝ) : Prop := ∃ slope, Vec.dot gradient d = .ok slope ∧ slope < 0

theorem neg_pointsDown {gradient : Vec ℝ} (h : 0 < gradient.normSq) :
    PointsDown gradient gradient.neg := by
  obtain ⟨n, hlength⟩ : ∃ n, gradient.length = n := ⟨_, rfl⟩
  obtain ⟨g, rfl⟩ := Vec.exists_eq_ofFn gradient hlength
  refine ⟨g ⬝ᵥ -g, by rw [Vec.neg_ofFn, Vec.dot_ofFn], ?_⟩
  rw [Vec.normSq, Vec.inner_ofFn] at h
  rw [dotProduct_neg]
  exact neg_lt_zero.mpr h

section Exact

variable [Kernel ℝ] [ExactKernel]

theorem SolvesSystem.pointsDown {gradient d : Vec ℝ} (h : SolvesSystem gradient d)
    (hpos : 0 < gradient.normSq) : PointsDown gradient d := by
  obtain ⟨m, solve, hsolver, hd⟩ := h
  obtain ⟨n, S, r, x, hr, rfl, hposDef, hsystem⟩ := exists_posDef_system hsolver hd
  have hlength : gradient.length = n := by
    simpa [Vec.neg] using congrArg List.length hr
  obtain ⟨g, rfl⟩ := Vec.exists_eq_ofFn gradient hlength
  -- The right-hand side of the system is the negated gradient.
  rw [Vec.neg_ofFn] at hr
  rw [← List.ofFn_injective hr] at hsystem
  exact ⟨g ⬝ᵥ x, Vec.dot_ofFn g x,
    dotProduct_neg_of_posDef hposDef (ne_zero_of_normSq_pos hpos) hsystem⟩

theorem Rule.direction_pointsDown {rule : Rule ℝ} {attempts iteration : ℕ}
    {problem : Objective σ ℝ} {x gradient : Vec ℝ} {s s' : Session σ ℝ} {d : Direction ℝ}
    (h : rule.direction attempts problem x gradient iteration s = (.ok d, s'))
    (hpos : 0 < gradient.normSq) : PointsDown gradient d.vector := by
  rcases Rule.direction_ok h with hneg | hsystem
  · rw [hneg]
    exact neg_pointsDown hpos
  · exact hsystem.pointsDown hpos

/-! ## Refusals -/

/-- Over a positive floor, a spectrum is never refused. -/
theorem floorDirection_ne_error {floor : ℝ} (hfloor : 0 < floor) (hessian : Downhill.Matrix ℝ)
    (gradient : Vec ℝ) (iteration : ℕ) (error : SolverError ℝ) :
    (Stabiliser.floorDirection floor hessian gradient iteration).1 ≠ .error (.error error) := by
  intro h
  have hended := Stabiliser.floorDirection_floorsTo floor hessian gradient iteration
  generalize Stabiliser.floorDirection floor hessian gradient iteration = ended at h hended
  cases hended with
  | broken => cases h
  | misshapen => cases h
  | refused hprojection hsolver =>
      obtain ⟨solve, hsolve, -⟩ := Projection.exists_solver hfloor hprojection
      cases hsolve.symm.trans hsolver
  | solved => exact Stabiliser.newton_ne_error _ _ _ _ h

theorem exists_floorDirection {floor : ℝ} (hfloor : 0 < floor) {hessian : Downhill.Matrix ℝ}
    {gradient : Vec ℝ} (hsquare : hessian.isSquare = true)
    (hfits : gradient.length = hessian.height) (hnonempty : gradient ≠ []) (iteration : ℕ) :
    ∃ d, (Stabiliser.floorDirection floor hessian gradient iteration).1 = .ok d := by
  have hheight : hessian.height ≠ 0 := by
    rw [← hfits]
    exact fun hzero => hnonempty (List.eq_nil_of_length_eq_zero hzero)
  obtain ⟨projection, hprojection⟩ := Projection.exists_ofMatrix hsquare hheight floor
  obtain ⟨solve, hsolve, hanswers⟩ := Projection.exists_solver hfloor hprojection
  obtain ⟨vector, hvector⟩ := hanswers gradient.neg (by simpa [Vec.neg] using hfits)
  refine ⟨⟨vector, projection.lift floor⟩, ?_⟩
  rw [(Stabiliser.FloorsTo.solved hprojection hsolve).eq]
  simp only [Stabiliser.newton, hvector]

/-- Over a positive floor, a Hessian that fits the gradient always yields a direction. -/
theorem Rule.exists_direction {floor : ℝ} (hfloor : 0 < floor) (attempts : ℕ)
    {problem : Objective σ ℝ} {x gradient : Vec ℝ} {s : Session σ ℝ} {hessian : Downhill.Matrix ℝ}
    (hhessian : (problem.hessian x s.objective).1 = .ok hessian)
    (hsquare : hessian.isSquare = true) (hfits : gradient.length = hessian.height)
    (hnonempty : gradient ≠ []) (iteration : ℕ) :
    ∃ d s',
      (stabilised (.eigenvalueFloor floor)).direction attempts problem x gradient iteration s =
        (.ok d, s') := by
  obtain ⟨d, hd⟩ := exists_floorDirection hfloor hsquare hfits hnonempty iteration
  simp only [direction, bind_apply, evaluate_of_ok hhessian]
  change ∃ d s', Session.take (Stabiliser.direction _ attempts s.carried hessian gradient iteration)
    _ = (.ok d, s')
  rw [take_apply]
  exact ⟨d, _, Prod.ext hd rfl⟩

/-! ## Solves -/

variable {rule : Rule ℝ} {attempts : ℕ} {config : SolverConfig ℝ} {x0 : Vec ℝ}
  {inherited : Option ℝ}

omit [Kernel ℝ] [ExactKernel] in
theorem threshold_nonneg (config : SolverConfig ℝ) : 0 ≤ config.threshold := by
  have hsquare := mul_self_nonneg config.tolerance
  simp only [SolverConfig.threshold]
  norm_num
  linarith

/-- Nothing in a solve with the given views and result leads uphill or along a level line. -/
structure StrictlyDescends (rule : Rule ℝ) (attempts : ℕ) (problem : Objective σ ℝ)
    (config : SolverConfig ℝ) (views : List (View ℝ)) (result : Except (Stop ℝ) (Solution ℝ)) :
    Prop where
  /-- A direction that is asked for after the test for convergence points down. -/
  directed : ∀ (s s' : Session σ ℝ) (x gradient : Vec ℝ) (iteration : ℕ) (d : Direction ℝ),
    ¬ gradient.normSq ≤ config.threshold →
    rule.direction attempts problem x gradient iteration s = (.ok d, s') →
      PointsDown gradient d.vector
  viewed : ∀ view ∈ views, PointsDown view.gradient view.direction ∧ view.status ≠ .notDescent
  unrefused : ∀ floor iteration, rule = .stabilised (.eigenvalueFloor floor) → 0 < floor →
    result ≠ .error (.error (.hessianNotPositiveDefinite iteration))
  /-- Instead, a Hessian of the size of the gradient always yields a direction. -/
  found : ∀ floor, rule = .stabilised (.eigenvalueFloor floor) → 0 < floor →
    ∀ (s : Session σ ℝ) (x gradient : Vec ℝ) (iteration : ℕ) (hessian : Downhill.Matrix ℝ),
      (problem.hessian x s.objective).1 = .ok hessian → hessian.isSquare = true →
      gradient.length = hessian.height → gradient ≠ [] →
        ∃ d s', rule.direction attempts problem x gradient iteration s = (.ok d, s')

omit [Kernel ℝ] [ExactKernel] in
theorem normSq_pos_of_unmet {gradient : Vec ℝ} (h : ¬ gradient.normSq ≤ config.threshold) :
    0 < gradient.normSq :=
  (threshold_nonneg config).trans_lt (not_le.mp h)

theorem Shown.pointsDown {f : Answers ℝ} {carried : Option ℝ} {view : View ℝ}
    (h : Shown f rule attempts config carried view) :
    PointsDown view.gradient view.direction ∧ view.status ≠ .notDescent := by
  have hdown : PointsDown view.gradient view.direction :=
    Rule.direction_pointsDown (Prod.ext h.directed rfl) (normSq_pos_of_unmet h.unsettled.above)
  refine ⟨hdown, fun hstatus => ?_⟩
  obtain ⟨slope, hslope, hneg⟩ := hdown
  obtain ⟨outcome, hsearch, -, hsame⟩ := h.searched
  have hsearched := LineSearch.search_spec hsearch
  have hup := hsearched.notDescent_iff.mp (hsame.trans hstatus)
  have hsame' := hsearched.slope
  rw [hslope] at hsame'
  cases hsame'
  norm_num at hup
  exact lt_asymm hup hneg

theorem Failed.ne_refused {f : Answers ℝ} {s : Session (List (Call ℝ)) ℝ} {stop : Stop ℝ}
    {floor : ℝ} (hfloor : 0 < floor)
    (h : Failed f (.stabilised (.eigenvalueFloor floor)) attempts config x0 inherited s stop)
    (iteration : ℕ) : stop ≠ .error (.hessianNotPositiveDefinite iteration) := by
  rintro rfl
  cases h with
  | refused _ _ hanswer =>
      rw [Rule.answer_stabilised] at hanswer
      split at hanswer
      · simp at hanswer
      · exact floorDirection_ne_error hfloor _ _ _ _ hanswer

/-- Whatever the objective, the rule and the parameters are, a solve in exact arithmetic goes
strictly down. -/
theorem solve_strictlyDescends {problem : Objective σ ℝ} {f : Answers ℝ} (h : problem.Gives f)
    {o : σ} {result : Except (Stop ℝ) (Solution ℝ)} {session : Session σ ℝ}
    (hrun : solve rule attempts problem config x0 (.start o inherited) = (result, session)) :
    StrictlyDescends rule attempts problem config session.views.toList result := by
  have hchronicle := solve_chronicle h hrun
  constructor
  · intro s s' x gradient iteration d hunmet hd
    exact Rule.direction_pointsDown hd (normSq_pos_of_unmet hunmet)
  · intro view hview
    obtain ⟨i, hi⟩ := List.getElem?_of_mem hview
    exact (hchronicle.shown i view hi).pointsDown
  · intro floor iteration hrule hfloor hrefused
    subst hrule hrefused
    by_cases hstart : Admissible (.stabilised (.eigenvalueFloor floor)) config problem.unknowns x0
    · obtain ⟨calls, -, hfailed⟩ := solve_failed h hstart hrun
      exact hfailed.ne_refused hfloor iteration rfl
    · obtain ⟨error, log, hrejects, hstop⟩ :=
        solve_of_not_admissible attempts hstart (.start o inherited)
      rw [hstop] at hrun
      cases hrun
      cases hrejects
  · intro floor hrule hfloor s x gradient iteration hessian hhessian hsquare hfits hnonempty
    subst hrule
    exact Rule.exists_direction hfloor attempts hhessian hsquare hfits hnonempty iteration

end Exact

/-- The kernel of inverses and diagonal forms goes strictly down the saddle from a point where the
Hessian is indefinite: it refuses nothing on the way, and finds a first direction. -/
theorem saddle_strictlyDescends :
    ∃ result session d s',
      solve (.stabilised (.eigenvalueFloor 1e-7)) 100
        ((Problem.saddle (.default : Saddle ℝ)).objective Unit) .default [0.5, 0.2] (.start ()) =
          (result, session) ∧
      (∀ iteration, result ≠ .error (.error (.hessianNotPositiveDefinite iteration))) ∧
      Rule.direction (.stabilised (.eigenvalueFloor 1e-7)) 100
        ((Problem.saddle (.default : Saddle ℝ)).objective Unit) [0.5, 0.2] [0.5, -0.192] 0
          (.start ()) = (.ok d, s') ∧
      PointsDown [0.5, -0.192] d.vector := by
  obtain ⟨result, session, hrun⟩ : ∃ result session,
      solve (.stabilised (.eigenvalueFloor 1e-7)) 100
        ((Problem.saddle (.default : Saddle ℝ)).objective Unit) .default [0.5, 0.2] (.start ()) =
          (result, session) := ⟨_, _, rfl⟩
  have hdown := solve_strictlyDescends (Problem.objective_gives _) hrun
  have hfloor : (0 : ℝ) < 1e-7 := by norm_num
  obtain ⟨d, s', hd⟩ := hdown.found 1e-7 rfl hfloor (.start ()) [0.5, 0.2] [0.5, -0.192] 0 _ rfl
    (Matrix.isSquare_diagonal _) (by simp [Matrix.height_diagonal]) (by simp)
  refine ⟨result, session, d, s', hrun, fun iteration => hdown.unrefused 1e-7 iteration rfl hfloor,
    hd, hdown.directed _ _ _ _ _ _ ?_ hd⟩
  norm_num [Vec.normSq, Vec.inner_eq_sum, SolverConfig.threshold, SolverConfig.default]

end Downhill
