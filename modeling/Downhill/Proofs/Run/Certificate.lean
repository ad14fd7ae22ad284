import Downhill.Proofs.Run.Outcome

/-! # Certified solutions

A solution describes the point it holds: value, norm of the gradient and flag belong to that point,
and the number of iterations to the way there. No earlier point of the run met the threshold.
-/

namespace Downhill

open Session

variable {σ α : Type} [Scalar α]

/-- A solution tells the truth about its point and about the views that lead there. -/
structure Certified (f : Answers α) (config : SolverConfig α) (x0 : Vec α)
    (views : List (View α)) (solution : Solution α) : Prop where
  value : f.value solution.x = .ok solution.value
  gradient : ∃ gradient, f.gradient solution.x = .ok gradient ∧
    solution.gradientNormSq = gradient.normSq
  finite : Scalar.isFinite solution.gradientNormSq = true
  converged_iff : solution.converged = true ↔
    solution.gradientNormSq ≤ (2.0 * config.tolerance) * config.tolerance
  within : solution.iterations ≤ config.maxIterations
  exhausted : solution.converged = false → solution.iterations = config.maxIterations
  arrives : views.length = solution.iterations ∧ reached x0 views = .ok solution.x
  /-- Every point before the last was looked at and found wanting. -/
  earlier : ∀ i < solution.iterations, ∃ x gradient, reached x0 (views.take i) = .ok x ∧
    f.gradient x = .ok gradient ∧ Scalar.isFinite gradient.normSq = true ∧
    ¬ gradient.normSq ≤ (2.0 * config.tolerance) * config.tolerance

variable [Kernel α] {rule : Rule α} {attempts : Nat} {config : SolverConfig α} {x0 : Vec α}
  {inherited : Option α}

theorem Finished.certified {f : Answers α} {s : Session (List (Call α)) α}
    {solution : Solution α} (h : Finished f rule attempts config x0 inherited s solution) :
    Certified f config x0 s.views.toList solution := by
  refine ⟨h.value_eq, h.gradient_eq, h.finite, ?_, h.within, h.exhausted,
    ⟨h.iterations_eq.symm, h.arrived⟩, ?_⟩
  · rw [h.converged_eq, decide_eq_true_iff]
    rfl
  · intro i hi
    rw [h.iterations_eq] at hi
    have hview : s.views.toList[i]? = some s.views[i] := by simp [hi]
    have hunsettled := (h.chronicle.shown i _ hview).unsettled
    exact ⟨_, _, h.chronicle.stands i _ hview, hunsettled.gradient_eq, hunsettled.finite,
      hunsettled.above⟩

/-- A run that starts where the gradient does not meet the threshold iterates. -/
theorem Finished.iterations_pos {f : Answers α} {s : Session (List (Call α)) α}
    {solution : Solution α} (h : Finished f rule attempts config x0 inherited s solution)
    {gradient : Vec α}
    (hgradient : f.gradient x0 = .ok gradient) (habove : ¬ gradient.normSq ≤ config.threshold)
    (hcap : 1 ≤ config.maxIterations) : 1 ≤ solution.iterations := by
  refine Nat.pos_of_ne_zero fun hzero => ?_
  -- Without iterations the run ends where it started, and then for want of iterations.
  have hviews : s.views.toList = [] := by
    rw [← List.length_eq_zero_iff, Array.length_toList, ← h.iterations_eq, hzero]
  have harrived := h.arrived
  rw [hviews, reached_nil] at harrived
  obtain ⟨gradient', hgradient', hnorm⟩ := h.gradient_eq
  rw [← Except.ok.inj harrived, hgradient] at hgradient'
  cases hgradient'
  have hpending : solution.converged = false := by
    rw [h.converged_eq, hnorm]
    exact decide_eq_false habove
  have hexhausted := h.exhausted hpending
  omega

/-- Whatever the objective, the rule, the parameters and the inherited shift are, a result is
certified. -/
theorem solve_certified {problem : Objective σ α} {f : Answers α} (h : problem.Gives f) {o : σ}
    {solution : Solution α} {session : Session σ α}
    (hrun : solve rule attempts problem config x0 (.start o inherited) = (.ok solution, session)) :
    Certified f config x0 session.views.toList solution := by
  obtain ⟨calls, -, hfinished⟩ := solve_finished h hrun
  exact hfinished.certified

/-- A run on the saddle that starts where the Hessian is indefinite and converges at the point that
the last permitted step leads to. -/
theorem saddle_certified :
    ∃ solution session,
      solve (.stabilised (.shiftByGamma 10.0)) 100 ((Problem.saddle .default).objective Unit)
        ⟨1e-4, 4, .default⟩ [0.5, 0.2] (.start ()) = (.ok solution, session) ∧
      (solution.converged && solution.iterations == 4) = true ∧
      Certified (Problem.saddle (.default : Saddle Float)).answers ⟨1e-4, 4, .default⟩ [0.5, 0.2]
        session.views.toList solution := by
  obtain ⟨solution, session, hrun, htest⟩ := exists_of_answersWith
    (solve (.stabilised (.shiftByGamma 10.0)) 100 ((Problem.saddle .default).objective Unit)
      ⟨1e-4, 4, .default⟩ [0.5, 0.2])
    (.start ()) (fun solution _ => solution.converged && solution.iterations == 4)
    (by decide +kernel)
  exact ⟨solution, session, hrun, htest, solve_certified (Problem.objective_gives _) hrun⟩

end Downhill
