import Mathlib
import Downhill.Proofs.Exact.Descent
import Downhill.Proofs.Exact.Quadratic
import Downhill.Proofs.Run.Restart

/-! # The full Newton step

On a quadratic with a positive definite matrix, Newton's direction leads from any point to the
minimiser. The value falls by half of what the slope promises, so a line search that asks for no
larger share accepts the full step, and there the gradient is zero.
-/

open Matrix

namespace Downhill

open Session Descent

variable {σ : Type} {n : ℕ}

/-! ## Rules of Newton's kind -/

/-- Rules that solve with the Hessian itself as long as it is positive definite. -/
inductive Rule.Newtonian {α : Type} [Scalar α] : Rule α → Prop
  | newton : Newtonian .newton
  | shifted {shift : ShiftConfig α} : shift.validate = .ok () →
      Newtonian (.stabilised (.diagonalShift shift))

namespace Rule.Newtonian

variable {α : Type} [Scalar α] {rule : Rule α} (h : rule.Newtonian)

include h

theorem valid : ∀ stabiliser, rule = .stabilised stabiliser → stabiliser.validate = .ok () := by
  cases h with
  | newton => exact nofun
  | shifted hvalid =>
      rintro _ ⟨⟩
      exact hvalid

/-- A Hessian with a solver yields Newton's direction without a correction, whatever shift is
carried. -/
theorem direction_eq [Kernel α] {attempts iteration : ℕ} {problem : Objective σ α}
    {x gradient d : Vec α} {s : Session σ α} {o : σ} {hessian : Downhill.Matrix α}
    {solve : Vec α → Except Fault (Vec α)}
    (hhessian : problem.hessian x s.objective = (.ok hessian, o))
    (hsolver : hessian.solver? = .ok (some solve)) (hd : solve gradient.neg = .ok d) :
    ∃ carried, rule.direction attempts problem x gradient iteration s =
      (.ok ⟨d, 0.0⟩, { s with objective := o, carried }) := by
  cases h with
  | newton =>
      refine ⟨s.carried, ?_⟩
      simp only [direction, bind_apply, evaluate, hhessian, hsolver, settle_ok_apply, hd]
      rfl
  | shifted hvalid =>
      refine ⟨none, ?_⟩
      simp only [direction, bind_apply, evaluate, hhessian]
      change take (Stabiliser.direction _ attempts s.carried hessian gradient iteration) _ = _
      simp only [take_apply, Stabiliser.direction, Stabiliser.shiftDirection, hsolver,
        Stabiliser.newton, hd, Array.append_empty]

end Rule.Newtonian

/-! ## Newton's direction -/

section Direction

variable {S : RealMatrix n} {b x d : Fin n → ℝ}

/-- Newton's direction leads to the point where the gradient is zero. -/
theorem mulVec_add_newton (hd : S *ᵥ d = -(S *ᵥ x - b)) : S *ᵥ (x + d) = b := by
  rw [mulVec_add, hd]
  abel

/-- Along Newton's direction, half of what the slope promises is left at the full step. -/
theorem quadraticForm_add_newton (hsymm : S.IsSymm) (hd : S *ᵥ d = -(S *ᵥ x - b)) :
    quadraticForm S b (x + d) = quadraticForm S b x + 1 / 2 * ((S *ᵥ x - b) ⬝ᵥ d) := by
  rw [quadraticForm_add hsymm, hd, dotProduct_neg, dotProduct_comm d]
  ring

theorem slack_nonneg (fx decrease : ℝ) : 0 ≤ LineSearch.slack fx decrease := by
  have hslack : LineSearch.slack fx decrease =
      (10.0 * 2 ^ (-52 : ℤ)) * (|fx| + |decrease|) := rfl
  rw [hslack]
  positivity

/-- A fall that reaches the share which is asked for passes, also without the allowance for
round-off. -/
theorem acceptable_of_le {alpha fx slope t ft : ℝ} (hfalls : ft < fx)
    (hshare : ft ≤ fx + alpha * t * slope) :
    LineSearch.acceptable alpha fx slope t ft = true := by
  have hslack := slack_nonneg fx (alpha * t * slope)
  simp only [LineSearch.acceptable, LineSearch.descends, Bool.and_eq_true, Bool.or_eq_true,
    decide_eq_true_eq]
  exact ⟨.inl hfalls, by linarith⟩

/-- A fall by half of what the slope promises passes if no larger share is asked for. -/
theorem acceptable_of_half {alpha fx slope : ℝ} (halpha : alpha ≤ 1 / 2) (hslope : slope < 0) :
    LineSearch.acceptable alpha fx slope 1 (fx + 1 / 2 * slope) = true := by
  have hshare : 1 / 2 * slope ≤ alpha * 1 * slope := by nlinarith
  exact acceptable_of_le (by linarith) (by linarith)

end Direction

/-! ## Runs -/

section Runs

variable [Kernel ℝ] [ExactFactorisation] {q : Quadratic ℝ} {S : RealMatrix n} {b : Fin n → ℝ}
  {rule : Rule ℝ} (attempts : ℕ) {config : SearchConfig ℝ} (state : Convergence ℝ)

/-- Where the gradient is not zero, the full step along Newton's direction is taken. -/
theorem exists_full_step (hq : q.Represents S b) (hposDef : S.PosDef) (hrule : rule.Newtonian)
    (hfull : config.initialStep = 1) (halpha : config.alpha ≤ 1 / 2) {x : Fin n → ℝ}
    (hpos : 0 < Vec.normSq (List.ofFn (S *ᵥ x - b))) (s : Session σ ℝ) :
    ∃ (next direction : Fin n → ℝ) (carried : Option ℝ), S *ᵥ next = b ∧
      step rule attempts ((Problem.quadratic q).objective σ) config (List.ofFn x)
        (List.ofFn (S *ᵥ x - b)) state s =
          (.ok (List.ofFn next), { s with
            carried
            views := s.views.push ⟨state.iteration, List.ofFn x, List.ofFn (S *ᵥ x - b),
              List.ofFn direction, 1, .accepted, 0⟩
            log := s.log.push (.iteration state.iteration state.gradientNormSq 1 0 0) }) := by
  obtain ⟨solve, hsolver, hsolve⟩ := exists_exact_solver hposDef
  obtain ⟨d, hd, hsystem⟩ := hsolve (-(S *ᵥ x - b))
  rw [← Vec.neg_ofFn] at hd
  have hslope : (S *ᵥ x - b) ⬝ᵥ d < 0 :=
    dotProduct_neg_of_posDef hposDef (ne_zero_of_normSq_pos hpos) hsystem
  let problem : Objective σ ℝ := (Problem.quadratic q).objective σ
  obtain ⟨carried, hdirection⟩ : ∃ carried, rule.direction attempts problem (List.ofFn x)
      (List.ofFn (S *ᵥ x - b)) state.iteration s = (.ok ⟨List.ofFn d, 0.0⟩, { s with carried }) :=
    hrule.direction_eq (Prod.ext (congrArg Except.ok hq.matrix_eq) rfl) hsolver hd
  have hmove : Vec.move (List.ofFn x) config.initialStep (List.ofFn d) =
      .ok (List.ofFn (x + d)) := by
    rw [hfull, Vec.move_ofFn, one_smul]
  have hnone : (0.0 : ℝ) = 0 := by norm_num
  have hdown : ¬ (0.0 : ℝ) < (S *ᵥ x - b) ⬝ᵥ d := by
    rw [hnone]
    exact not_lt.mpr hslope.le
  have haccept : LineSearch.acceptable config.alpha (quadraticForm S b x) ((S *ᵥ x - b) ⬝ᵥ d)
      config.initialStep (quadraticForm S b (x + d)) = true := by
    rw [hfull, quadraticForm_add_newton (by simpa using hposDef.isHermitian) hsystem]
    exact acceptable_of_half halpha hslope
  have hsearch : LineSearch.backtracking problem (List.ofFn x) (List.ofFn d)
      (List.ofFn (S *ᵥ x - b)) config s.objective =
        (.ok ⟨config.initialStep, .accepted, 0, (S *ᵥ x - b) ⬝ᵥ d⟩, s.objective) :=
    LineSearch.backtracking_of_acceptable (Vec.dot_ofFn _ _) hdown
      (Prod.ext (hq.value_ofFn x) rfl) hmove (Prod.ext (hq.value_ofFn (x + d)) rfl) haccept
  refine ⟨x + d, d, carried, mulVec_add_newton hsystem, (step_eq hdirection hsearch hmove).trans ?_⟩
  simp only [SearchOutcome.warnings, hfull, hnone]
  rfl

omit [ExactFactorisation] in
/-- Where the gradient is zero, a run is over. -/
theorem remainder_of_minimiser (hq : q.Represents S b) {x : Fin n → ℝ} (hx : S *ᵥ x = b)
    (hpending : state.converged = false) (hthreshold : 0 ≤ state.threshold) (m : ℕ)
    (s : Session σ ℝ) :
    (loop rule attempts ((Problem.quadratic q).objective σ) config m (List.ofFn x) state >>=
        closing ((Problem.quadratic q).objective σ)) s =
      (.ok ⟨List.ofFn x, state.iteration, true, quadraticForm S b x, 0⟩,
        { s with log := s.log.push (.converged state.iteration 0) }) := by
  have hgradient : q.gradient (List.ofFn x) = .ok (List.ofFn (0 : Fin n → ℝ)) := by
    rw [hq.gradient_ofFn, hx, sub_self]
  have hnorm : Vec.normSq (List.ofFn (0 : Fin n → ℝ)) = 0 := by
    rw [Vec.normSq, Vec.inner_ofFn, zero_dotProduct]
  let problem : Objective σ ℝ := (Problem.quadratic q).objective σ
  have hlook : look problem (List.ofFn x) state s =
      (.ok (List.ofFn (0 : Fin n → ℝ), state.observe 0), s) := by
    rw [look_eq (Prod.ext hgradient rfl) rfl, hnorm]
    rfl
  have hconverged : (state.observe 0).converged = true := decide_eq_true hthreshold
  rw [remainder_of_stationary hpending hlook hconverged m,
    conclude_eq (Prod.ext (hq.value_ofFn x) rfl), if_pos hconverged]
  simp only [Convergence.solution, hconverged]
  rfl

/-- From a point whose gradient does not meet the threshold, a run takes one full step. -/
theorem remainder_steps_fully (hq : q.Represents S b) (hposDef : S.PosDef)
    (hrule : rule.Newtonian) (hfull : config.initialStep = 1) (halpha : config.alpha ≤ 1 / 2)
    {x : Fin n → ℝ} (hthreshold : 0 ≤ state.threshold)
    (habove : state.threshold < Vec.normSq (List.ofFn (S *ᵥ x - b))) (m : ℕ) (s : Session σ ℝ) :
    ∃ (next direction : Fin n → ℝ) (carried : Option ℝ), S *ᵥ next = b ∧
      (loop rule attempts ((Problem.quadratic q).objective σ) config (m + 1) (List.ofFn x) state >>=
          closing ((Problem.quadratic q).objective σ)) s =
        (.ok ⟨List.ofFn next, state.iteration + 1, true, quadraticForm S b next, 0⟩, { s with
          carried
          views := s.views.push ⟨state.iteration, List.ofFn x, List.ofFn (S *ᵥ x - b),
            List.ofFn direction, 1, .accepted, 0⟩
          log := (s.log.push (.iteration state.iteration
            (Vec.normSq (List.ofFn (S *ᵥ x - b))) 1 0 0)).push
              (.converged (state.iteration + 1) 0) }) := by
  let problem : Objective σ ℝ := (Problem.quadratic q).objective σ
  let looked := state.observe (Vec.normSq (List.ofFn (S *ᵥ x - b)))
  have hlook : look problem (List.ofFn x) state s = (.ok (List.ofFn (S *ᵥ x - b), looked), s) :=
    look_eq (Prod.ext (hq.gradient_ofFn x) rfl) rfl
  have hunmet : looked.converged = false := decide_eq_false (not_le.mpr habove)
  obtain ⟨next, direction, carried, hnext, hstep⟩ := exists_full_step attempts looked hq hposDef
    hrule hfull halpha (hthreshold.trans_lt habove) s
  refine ⟨next, direction, carried, hnext, ?_⟩
  rw [remainder_succ, bind_apply, hlook]
  dsimp only
  rw [if_neg (by simp [hunmet]), bind_apply, hstep]
  exact remainder_of_minimiser attempts looked.advance hq hnext hunmet hthreshold m _

end Runs

/-! ## Solves -/

/-- From a point whose gradient does not meet the threshold, a rule of Newton's kind takes one full
step to the point where it is zero, and returns that. -/
theorem Rule.Newtonian.solve_eq [Kernel ℝ] [ExactFactorisation] {rule : Rule ℝ}
    (hrule : rule.Newtonian) {q : Quadratic ℝ} {S : RealMatrix n} {b : Fin n → ℝ}
    (hq : q.Represents S b) (hposDef : S.PosDef) {config : SolverConfig ℝ}
    (hconfig : config.validate = .ok ()) (hfull : config.lineSearch.initialStep = 1)
    (halpha : config.lineSearch.alpha ≤ 1 / 2) (hcap : 1 ≤ config.maxIterations) {x : Fin n → ℝ}
    (habove : config.threshold < Vec.normSq (List.ofFn (S *ᵥ x - b))) (attempts : ℕ)
    (inherited : Option ℝ) (o : σ) :
    ∃ (next direction : Fin n → ℝ) (session : Session σ ℝ), S *ᵥ next = b ∧
      solve rule attempts ((Problem.quadratic q).objective σ) config (List.ofFn x)
          (.start o inherited) =
        (.ok ⟨List.ofFn next, 1, true, quadraticForm S b next, 0⟩, session) ∧
      session.views = #[⟨0, List.ofFn x, List.ofFn (S *ᵥ x - b), List.ofFn direction, 1,
        .accepted, 0⟩] ∧
      ∃ opening, session.log = opening ++
        #[.iteration 0 (Vec.normSq (List.ofFn (S *ᵥ x - b))) 1 0 0, .converged 1 0] := by
  let problem : Objective σ ℝ := (Problem.quadratic q).objective σ
  have hfits : (List.ofFn x).length = problem.unknowns := by
    rw [List.length_ofFn]
    exact hq.unknowns_eq.symm
  have hadmissible : Admissible rule config problem.unknowns (List.ofFn x) :=
    ⟨hrule.valid, hconfig, hfits⟩
  obtain ⟨log, hsolve⟩ := solve_of_admissible hadmissible (.start o inherited)
  obtain ⟨m, hm⟩ : ∃ m, config.maxIterations = m + 1 := ⟨_, (Nat.sub_add_cancel hcap).symm⟩
  obtain ⟨next, direction, carried, hnext, hremainder⟩ := remainder_steps_fully attempts
    (.start config) hq hposDef hrule hfull halpha (threshold_nonneg config) habove m
    { start o inherited with log }
  rw [hm, hremainder] at hsolve
  exact ⟨next, direction, _, hnext, hsolve, rfl, log, Array.ext' (by simp [Convergence.start])⟩

/-- The solve takes one full step, from `x0` to the minimiser of `q`. -/
structure StepsFully [Kernel ℝ] (q : Quadratic ℝ) (x0 gradient : Vec ℝ)
    (result : Except (Stop ℝ) (Solution ℝ)) (session : Session σ ℝ) : Prop where
  result_eq : ∃ x value, q.minimiser = .ok (some x) ∧ q.value x = .ok value ∧
    result = .ok ⟨x, 1, true, value, 0⟩
  views_eq : ∃ direction, session.views = #[⟨0, x0, gradient, direction, 1, .accepted, 0⟩]
  /-- The step is taken as it is, without a shrink or a warning. -/
  log_eq : ∃ opening, session.log =
    opening ++ #[.iteration 0 gradient.normSq 1 0 0, .converged 1 0]

/-- Newton's method, plain or with a diagonal shift, solves a convex quadratic in one full step;
gradient descent is no faster. -/
theorem solve_stepsFully [Kernel ℝ] [ExactFactorisation] {A : RealMatrix n} {b : Fin n → ℝ}
    {q : Quadratic ℝ} (hmake : Quadratic.make (tabulate A) (List.ofFn b) = .ok q)
    (hposDef : (symmetricPart A).PosDef) {config : SolverConfig ℝ}
    (hconfig : config.validate = .ok ()) (hfull : config.lineSearch.initialStep = 1)
    (halpha : config.lineSearch.alpha ≤ 1 / 2) (hcap : 1 ≤ config.maxIterations)
    {x0 gradient : Vec ℝ} (hgradient : q.gradient x0 = .ok gradient)
    (habove : config.threshold < gradient.normSq) (attempts : ℕ) (inherited : Option ℝ) (o : σ) :
    (∀ rule : Rule ℝ, rule.Newtonian → ∀ result session,
      solve rule attempts ((Problem.quadratic q).objective σ) config x0 (.start o inherited) =
        (result, session) → StepsFully q x0 gradient result session) ∧
    ∀ solution session, solve .steepest attempts ((Problem.quadratic q).objective σ) config x0
      (.start o inherited) = (.ok solution, session) → 1 ≤ solution.iterations := by
  have hq := Quadratic.represents_of_make hmake
  obtain ⟨x, rfl, rfl⟩ := hq.exists_of_gradient hgradient
  have hunmet : ¬ Vec.normSq (List.ofFn (symmetricPart A *ᵥ x - b)) ≤ config.threshold :=
    not_le.mpr habove
  constructor
  · intro rule hrule result session hrun
    obtain ⟨next, direction, _, hnext, hsolve, hviews, hlog⟩ :=
      hrule.solve_eq hq hposDef hconfig hfull halpha hcap habove attempts inherited o
    rw [hsolve] at hrun
    cases hrun
    exact ⟨⟨_, _, hq.minimiser_eq hposDef hnext, hq.value_ofFn next, rfl⟩, ⟨_, hviews⟩, hlog⟩
  · intro solution session hrun
    obtain ⟨calls, -, hfinished⟩ := solve_finished (Problem.objective_gives _) hrun
    exact hfinished.iterations_pos hgradient hunmet hcap

/-- One iteration, no shrinks, and the largest share. -/
noncomputable def oneStep : SolverConfig ℝ := ⟨1e-4, 1, ⟨1, 0.5, 0.75, 0⟩⟩

theorem oneStep_validate : oneStep.validate = .ok () := by
  norm_num [oneStep, SolverConfig.validate, SearchConfig.validate, inUnitInterval, isFinite_eq]

theorem oneStep_alpha_le : oneStep.lineSearch.alpha ≤ 1 / 2 := by
  norm_num [oneStep]

/-- A matrix that is not symmetric: with no shrinks and the largest share, the step to the minimiser
is still taken as it is. -/
theorem skewed_stepsFully :
    ∃ (q : Quadratic ℝ) (result : Except (Stop ℝ) (Solution ℝ)) (session : Session Unit ℝ),
      Quadratic.make (tabulate !![1, 2; -2, 1]) [3, -1] = .ok q ∧
      solve .newton 0 ((Problem.quadratic q).objective Unit) oneStep [0, 0] (.start ()) =
        (result, session) ∧ StepsFully q [0, 0] [-3, 1] result session := by
  obtain ⟨q, hmake⟩ := Quadratic.exists_make !![1, 2; -2, 1] ![3, -1]
  have hposDef : (symmetricPart !![1, 2; -2, 1]).PosDef := by
    rw [symmetricPart_skewed]
    exact PosDef.one
  have hgradient : q.gradient [0, 0] = .ok [-3, 1] := by
    have h := (Quadratic.represents_of_make hmake).gradient_ofFn ![0, 0]
    rw [symmetricPart_skewed, one_mulVec] at h
    simpa using h
  have habove : oneStep.threshold < Vec.normSq [-3, 1] := by
    norm_num [oneStep, Vec.normSq, Vec.inner_eq_sum, SolverConfig.threshold]
  obtain ⟨hnewton, -⟩ := solve_stepsFully hmake hposDef oneStep_validate rfl oneStep_alpha_le le_rfl
    hgradient habove 0 none ()
  exact ⟨q, _, _, by simpa using hmake, rfl, hnewton .newton .newton _ _ rfl⟩

end Downhill
