import Downhill.Proofs.Run.Loop

/-! # Outcomes of a solve

A solve whose parameters are refused evaluates nothing. Any other solve ends at the point its views
lead to, with a result that belongs there or with the reason why there is none.
-/

namespace Downhill

open Session

variable {σ α : Type} [Scalar α] {rule : Rule α} {config : SolverConfig α} {x0 : Vec α}

/-- Nothing about the parameters keeps a solve from starting. -/
structure Admissible (rule : Rule α) (config : SolverConfig α) (unknowns : Nat)
    (x0 : Vec α) : Prop where
  rule_valid : ∀ stabiliser, rule = .stabilised stabiliser → stabiliser.validate = .ok ()
  config_valid : config.validate = .ok ()
  dimension : x0.length = unknowns

/-- Plain Newton has no parameters of its own. -/
theorem Admissible.newton {unknowns : Nat} (hconfig : config.validate = .ok ())
    (hdimension : x0.length = unknowns) : Admissible .newton config unknowns x0 :=
  ⟨fun _ hrule => (by cases hrule), hconfig, hdimension⟩

/-- `error` finds fault with the parameters. -/
inductive Rejects : SolverError α → Prop
  | config (reason : ConfigError α) : Rejects (.invalidConfig reason)
  | dimension (unknowns coordinates : Nat) : Rejects (.dimensionMismatch unknowns coordinates)

/-! ## Refused parameters -/

theorem prepare_of_valid (h : ∀ stabiliser, rule = .stabilised stabiliser →
    stabiliser.validate = .ok ()) (s : Session σ α) :
    ∃ log, rule.prepare s = (.ok (), { s with log }) := by
  cases rule with
  | steepest => exact ⟨s.log, rfl⟩
  | newton => exact ⟨s.log, rfl⟩
  | stabilised stabiliser =>
      refine ⟨s.log.push (.stabiliserSelected stabiliser.name), ?_⟩
      simp only [Rule.prepare, h stabiliser rfl]
      rfl

variable [Kernel α]

/-- A solve that does not start evaluates nothing and shows nothing. -/
theorem solve_of_not_admissible {problem : Objective σ α} (attempts : Nat)
    (h : ¬ Admissible rule config problem.unknowns x0) (s : Session σ α) :
    ∃ error log, Rejects error ∧
      solve rule attempts problem config x0 s = (.error (.error error), { s with log }) := by
  by_cases hrule : ∀ stabiliser, rule = .stabilised stabiliser → stabiliser.validate = .ok ()
  · obtain ⟨log, hprepare⟩ := prepare_of_valid hrule s
    have hrun : solve rule attempts problem config x0 s =
        Descent.run rule attempts problem config x0 { s with log } := by
      rw [solve, bind_apply, hprepare]
    cases hconfig : config.validate with
    | error reason =>
        refine ⟨_, log, .config reason, ?_⟩
        simp only [hrun, Descent.run, hconfig]
        rfl
    | ok _ =>
        have hdimension : x0.length ≠ problem.unknowns := fun hdimension =>
          h ⟨hrule, hconfig, hdimension⟩
        refine ⟨_, log, .dimension problem.unknowns x0.length, ?_⟩
        simp only [hrun, Descent.run, hconfig, if_pos hdimension]
        rfl
  · simp only [Classical.not_forall] at hrule
    obtain ⟨stabiliser, rfl, hinvalid⟩ := hrule
    cases hvalidate : stabiliser.validate with
    | ok _ => exact absurd hvalidate hinvalid
    | error reason =>
        refine ⟨_, s.log, .config reason, ?_⟩
        simp only [solve, bind_apply, Rule.prepare, hvalidate]
        rfl

/-! ## Solves that start -/

variable {attempts : Nat} {inherited : Option α}

namespace Descent

variable {f : Answers α}

theorem start_underway {s : Session (List (Call α)) α} (hobjective : s.objective = [])
    (hcarried : s.carried = inherited) (hviews : s.views = #[]) :
    Underway f rule attempts config x0 inherited s x0 (.start config) := by
  refine ⟨⟨?_, ?_, ?_⟩, ?_, rfl, rfl, ?_⟩
  · simpa [hviews] using Chronicle.nil
  · simp [hviews]
  · simp [hviews, hcarried, carriedAfter]
  · simp [hviews, Convergence.start]
  · simp [hviews, hobjective]

theorem run_ends {s : Session (List (Call α)) α} (hconfig : config.validate = .ok ())
    (hdimension : x0.length = f.unknowns) (hobjective : s.objective = [])
    (hcarried : s.carried = inherited) (hviews : s.views = #[]) :
    Ends (run rule attempts f.traced config x0) s
      (fun solution s' => Finished f rule attempts config x0 inherited s' solution)
      (fun stop s' => Failed f rule attempts config x0 inherited s' stop) := by
  unfold run
  rw [hconfig]
  simp only [f.traced_gives.unknowns, hdimension, ne_eq, not_true_eq_false, if_false]
  refine .bind (ends_report (.bind (ends_report (.bind ?_))))
  have hstart (log : Array (Event α)) :
      Underway f rule attempts config x0 inherited { s with log } x0 (.start config) :=
    start_underway hobjective hcarried hviews
  refine (loop_ends config.maxIterations (hstart _)).imp (fun halted s₁ hhalted => ?_)
    fun _ _ h => h
  refine .bind ((judge_ends hhalted).imp (fun state s₂ hjudged => ?_) fun _ _ h => h)
  obtain ⟨gradient, hlooked, hsize, hcap⟩ := hjudged
  simp only [hviews, List.size_toArray, List.length_nil, Nat.zero_add] at hsize hcap
  refine .bind (ends_report (.bind (ends_evaluate (ends_value (fun value hvalue => ?_)
    fun _ _ => .fault hlooked.chronicle))))
  refine .pure ⟨⟨hlooked.chronicle, hlooked.arrived, hlooked.carried_eq⟩, hlooked.iteration_eq,
    ?_, ?_, ⟨gradient, hlooked.gradient_eq, hlooked.norm_eq⟩, ?_, ?_, hvalue, ?_⟩
  · exact Nat.le_trans (Nat.le_of_eq hlooked.iteration_eq) hsize
  · exact fun hfalse => hlooked.iteration_eq.trans (hcap hfalse)
  · simpa [Convergence.solution, hlooked.norm_eq] using hlooked.finite
  · simpa [Convergence.solution, hlooked.norm_eq] using hlooked.converged_eq
  · simp [hlooked.gradients, Convergence.solution, Call.gradientPoint?]

end Descent

theorem solve_ends {f : Answers α} (h : Admissible rule config f.unknowns x0) :
    Ends (solve rule attempts f.traced config x0) (.start [] inherited)
      (fun solution s => Finished f rule attempts config x0 inherited s solution)
      (fun stop s => Failed f rule attempts config x0 inherited s stop) := by
  obtain ⟨log, hprepare⟩ := prepare_of_valid h.rule_valid
    (.start [] inherited : Session (List (Call α)) α)
  refine .bind ?_
  unfold Ends
  rw [hprepare]
  exact Descent.run_ends h.config_valid h.dimension rfl rfl rfl

/-! ## Any objective -/

section Transfer

variable {problem : Objective σ α} {f : Answers α} {o : σ} {session : Session σ α}

/-- The evaluations behind a session that a solve has left. -/
theorem exists_calls (h : problem.Gives f) {result : Except (Stop α) (Solution α)}
    (hrun : solve rule attempts problem config x0 (.start o inherited) = (result, session)) :
    ∃ calls, session.objective = problem.replay o calls ∧
      solve rule attempts f.traced config x0 (.start [] inherited) =
        (result, { session with objective := calls }) := by
  have heq := solve_eq_resume h rule attempts config x0 (.start o inherited)
  rw [hrun, Prod.mk.injEq] at heq
  obtain ⟨rfl, rfl⟩ := heq
  refine ⟨_, rfl, Prod.ext rfl ?_⟩
  simp [resume, start, bare]

theorem admissible_of_ok {solution : Solution α}
    (hrun : solve rule attempts problem config x0 (.start o inherited) = (.ok solution, session)) :
    Admissible rule config problem.unknowns x0 := by
  refine Classical.byContradiction fun hrefused => ?_
  obtain ⟨error, log, -, hstop⟩ := solve_of_not_admissible attempts hrefused (.start o inherited)
  rw [hstop] at hrun
  cases hrun

theorem solve_finished (h : problem.Gives f) {solution : Solution α}
    (hrun : solve rule attempts problem config x0 (.start o inherited) = (.ok solution, session)) :
    ∃ calls, session.objective = problem.replay o calls ∧
      Finished f rule attempts config x0 inherited { session with objective := calls }
        solution := by
  obtain ⟨calls, hcalls, htraced⟩ := exists_calls h hrun
  exact ⟨calls, hcalls, (solve_ends (h.unknowns ▸ admissible_of_ok hrun)).answer htraced⟩

theorem solve_failed (h : problem.Gives f) (hstart : Admissible rule config problem.unknowns x0)
    {stop : Stop α}
    (hrun : solve rule attempts problem config x0 (.start o inherited) = (.error stop, session)) :
    ∃ calls, session.objective = problem.replay o calls ∧
      Failed f rule attempts config x0 inherited { session with objective := calls } stop := by
  obtain ⟨calls, hcalls, htraced⟩ := exists_calls h hrun
  exact ⟨calls, hcalls, (solve_ends (h.unknowns ▸ hstart)).stop htraced⟩

/-- Whatever the result is, the views are a chronicle. -/
theorem solve_chronicle (h : problem.Gives f) {result : Except (Stop α) (Solution α)}
    (hrun : solve rule attempts problem config x0 (.start o inherited) = (result, session)) :
    Chronicle f rule attempts config x0 inherited session.views.toList := by
  by_cases hstart : Admissible rule config problem.unknowns x0
  · cases result with
    | ok solution =>
        obtain ⟨calls, -, hfinished⟩ := solve_finished h hrun
        exact hfinished.chronicle
    | error stop =>
        obtain ⟨calls, -, hfailed⟩ := solve_failed h hstart hrun
        exact hfailed.chronicle
  · obtain ⟨error, log, -, hstop⟩ := solve_of_not_admissible attempts hstart (.start o inherited)
    rw [hstop] at hrun
    cases hrun
    exact .nil

end Transfer

end Downhill
