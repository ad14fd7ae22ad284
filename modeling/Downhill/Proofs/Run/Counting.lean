import Downhill.Proofs.Run.Stages

/-! # Counted iterations

A run shows a view of every iteration that it completes. A result tells their number, and so does
an error that arises in an iteration.
-/

namespace Downhill

open Session Descent

variable {σ α : Type}

/-! ## Errors that name an iteration -/

/-- The iteration in which an error arose; refused parameters have none. -/
def SolverError.iteration? : SolverError α → Option Nat
  | hessianNotPositiveDefinite i => some i
  | regularisationOverflow _ _ i => some i
  | nonFiniteGradient i => some i
  | dimensionMismatch _ _ => none
  | invalidConfig _ => none

theorem RefusesAt.iteration?_eq {i : Nat} {error : SolverError α} (h : RefusesAt i error) :
    error.iteration? = some i := by
  rcases h with rfl | ⟨delta, maxDelta, rfl⟩
  · rfl
  · rfl

theorem Rejects.iteration?_eq {error : SolverError α} (h : Rejects error) :
    error.iteration? = none := by
  cases h with
  | config reason => rfl
  | dimension unknowns coordinates => rfl

/-- If a run stops with an error, then in the iteration after its last view. -/
def StopsCounted (stop : Stop α) (s : Session σ α) : Prop :=
  ∀ error, stop = .error error → error.iteration? = some s.views.size

theorem StopsCounted.fault (fault : Fault) (s : Session σ α) : StopsCounted (.fault fault) s :=
  nofun

/-! ## Runs -/

variable [Scalar α] {problem : Objective σ α} {x : Vec α} {state : Convergence α}

namespace Descent

theorem look_counts {s : Session σ α} (hcount : state.iteration = s.views.size) :
    Ends (look problem x state) s
      (fun looked s' => looked.2.iteration = s'.views.size)
      (fun stop s' => StopsCounted stop s') := by
  apply (look_keeps s).imp
  · rintro looked s' ⟨hviews, hiteration, -⟩
    rw [hiteration, hviews, hcount]
  · rintro stop s' ⟨hviews, herror⟩ error hstop
    rw [herror error hstop, hviews, ← hcount]
    rfl

theorem closing_counts {s : Session σ α} (hcount : state.iteration = s.views.size) :
    Ends (closing problem (x, state)) s
      (fun solution s' => solution.iterations = s'.views.size)
      (fun stop s' => StopsCounted stop s') := by
  have hconclude {judged : Convergence α} {s₁ : Session σ α}
      (hcount₁ : judged.iteration = s₁.views.size) :
      Ends (conclude problem x judged) s₁ (fun solution s' => solution.iterations = s'.views.size)
        (fun stop s' => StopsCounted stop s') := by
    apply (conclude_keeps x judged s₁).imp
    · rintro solution s' ⟨hviews, -, hiterations, -⟩
      rw [hiterations, hviews, hcount₁]
    · rintro stop s' ⟨-, fault, rfl⟩
      exact .fault fault s'
  cases hconverged : state.converged with
  | true =>
      rw [closing_of_converged problem x hconverged]
      exact hconclude hcount
  | false =>
      rw [closing_of_pending problem x hconverged]
      exact .bind ((look_counts hcount).imp (fun _ _ hlooked => hconclude hlooked) fun _ _ h => h)

variable [Kernel α] {rule : Rule α} {attempts : Nat} {config : SearchConfig α}

theorem step_counts {gradient : Vec α} {s : Session σ α}
    (hcount : state.iteration = s.views.size) :
    Ends (step rule attempts problem config x gradient state) s
      (fun _ s' => state.advance.iteration = s'.views.size)
      (fun stop s' => StopsCounted stop s') := by
  apply (step_shows s).imp
  · rintro next s' ⟨-, view, -, hshown⟩
    simp [hshown, Convergence.advance, hcount]
  · rintro stop s' (⟨hviews, hrefuses⟩ | ⟨⟨fault, rfl⟩, -⟩)
    · intro error hstop
      rw [(hrefuses error hstop).iteration?_eq, hviews, hcount]
    · exact .fault fault s'

theorem loop_counts (n : Nat) {s : Session σ α} (hcount : state.iteration = s.views.size) :
    Ends (loop rule attempts problem config n x state) s
      (fun halted s' => halted.2.iteration = s'.views.size)
      (fun stop s' => StopsCounted stop s') := by
  induction n generalizing s x state with
  | zero => exact Ends.pure hcount
  | succ n ih =>
      refine .bind ((look_counts hcount).imp (fun looked s₁ hlooked => ?_) fun _ _ h => h)
      dsimp only
      split
      · exact Ends.pure hlooked
      · exact .bind ((step_counts hlooked).imp (fun next s₂ hstep => ih hstep) fun _ _ h => h)

/-- The numbers of a run that has counted its views so far are right at its end. -/
theorem remainder_counts (n : Nat) {s : Session σ α} (hcount : state.iteration = s.views.size) :
    Ends (loop rule attempts problem config n x state >>= closing problem) s
      (fun solution s' => solution.iterations = s'.views.size)
      (fun stop s' => StopsCounted stop s') :=
  .bind ((loop_counts n hcount).imp (fun _ _ hhalted => closing_counts hhalted) fun _ _ h => h)

end Descent

/-- A solve that is not refused for its parameters counts its iterations. -/
theorem solve_counts [Kernel α] {rule : Rule α} {attempts : Nat} {config : SolverConfig α}
    {x0 : Vec α} {inherited : Option α} (o : σ) :
    Ends (solve rule attempts problem config x0) (.start o inherited)
      (fun solution s => solution.iterations = s.views.size)
      (fun stop s => ∀ error, stop = .error error →
        Rejects error ∧ s.views = #[] ∨ error.iteration? = some s.views.size) := by
  rw [solve_eq_stages]
  refine .bind ((opening_spec (.start o inherited)).imp ?_ ?_)
  · rintro _ s ⟨-, log, rfl⟩
    exact (remainder_counts _ rfl).imp (fun _ _ h => h) fun _ _ h error hstop =>
      .inr (h error hstop)
  · rintro stop s ⟨-, error, log, hrejects, rfl, rfl⟩ error' hstop
    cases hstop
    exact .inl ⟨hrejects, rfl⟩

/-- A rule refuses its own parameters. -/
def Rule.Refuses (rule : Rule α) (reason : ConfigError α) : Prop :=
  ∃ stabiliser, rule = .stabilised stabiliser ∧ stabiliser.validate = .error reason

theorem Descent.opening_refuses {rule : Rule α} {config : SolverConfig α} {x0 : Vec α}
    (hvalid : config.validate = .ok ()) (s : Session σ α) :
    Ends (opening rule problem config x0) s (fun _ s' => ∃ log, s' = { s with log })
      (fun stop _ => ∀ reason, stop = .error (.invalidConfig reason) → rule.Refuses reason) := by
  by_cases hrule : ∀ stabiliser, rule = .stabilised stabiliser → stabiliser.validate = .ok ()
  · obtain ⟨log, hprepare⟩ := prepare_of_valid hrule s
    refine .bind ?_
    unfold Ends
    rw [hprepare]
    dsimp only
    rw [hvalid]
    by_cases hdimension : x0.length = problem.unknowns
    · simp only [hdimension, ne_eq, not_true_eq_false, if_false]
      exact ⟨_, rfl⟩
    · simp only [ne_eq, hdimension, not_false_eq_true, if_true]
      intro reason hstop
      cases hstop
  · simp only [Classical.not_forall] at hrule
    obtain ⟨stabiliser, rfl, hinvalid⟩ := hrule
    refine .bind ?_
    cases hvalidate : stabiliser.validate with
    | ok _ => exact absurd hvalidate hinvalid
    | error reason =>
        simp only [Rule.prepare, hvalidate]
        intro reason' hstop
        cases hstop
        exact ⟨stabiliser, rfl, hvalidate⟩

/-- A solve with a valid configuration complains about the parameters of its rule only. -/
theorem solve_refuses [Kernel α] {rule : Rule α} {attempts : Nat} {config : SolverConfig α}
    {x0 : Vec α} {inherited : Option α} (hvalid : config.validate = .ok ()) (o : σ)
    {reason : ConfigError α}
    (hstop : (solve rule attempts problem config x0 (.start o inherited)).1 =
      .error (.error (.invalidConfig reason))) : rule.Refuses reason := by
  have hends : Ends (solve rule attempts problem config x0) (.start o inherited) (fun _ _ => True)
      (fun stop _ => ∀ reason, stop = .error (.invalidConfig reason) → rule.Refuses reason) := by
    rw [solve_eq_stages]
    refine .bind ((opening_refuses hvalid (.start o inherited)).imp ?_ fun _ _ h => h)
    rintro _ s ⟨log, rfl⟩
    refine (remainder_counts _ rfl).imp (fun _ _ _ => trivial) ?_
    intro stop s hcounted reason hstop
    -- What stops a run after its opening names an iteration.
    cases hcounted _ hstop
  exact hends.stop (Prod.ext hstop rfl) reason rfl

/-! ## The cap -/

variable [Kernel α] {rule : Rule α} {attempts : Nat}

/-- Each round of the loop shows at most one view. -/
theorem Descent.loop_within {config : SearchConfig α} {limit : Nat} (n : Nat) {s : Session σ α}
    (h : s.views.size + n ≤ limit) :
    Ends (loop rule attempts problem config n x state) s (fun _ s' => s'.views.size ≤ limit)
      (fun _ s' => s'.views.size ≤ limit) := by
  have hnow : s.views.size ≤ limit := Nat.le_trans (Nat.le_add_right _ _) h
  induction n generalizing s x state with
  | zero => exact Ends.pure hnow
  | succ n ih =>
      refine .bind ((look_keeps s).imp (fun looked s₁ hlooked => ?_) fun _ s₁ hstop => ?_)
      · obtain ⟨hviews, -, -⟩ := hlooked
        dsimp only
        split
        · exact Ends.pure (hviews ▸ hnow)
        · refine .bind ((step_shows s₁).imp (fun next s₂ hstep => ?_) fun stop s₂ hstop => ?_)
          · obtain ⟨-, view, -, hshown⟩ := hstep
            have hsize : s₂.views.size = s.views.size + 1 := by
              rw [hshown, Array.size_push, hviews]
            exact ih (by omega) (by omega)
          · rcases hstop with ⟨hviews₂, -⟩ | ⟨-, view, -, hshown⟩
            · rwa [hviews₂, hviews]
            · rw [hshown, Array.size_push, hviews]
              omega
      · rwa [hstop.1]

/-- However a solve ends, it has not shown more views than the cap allows. -/
theorem solve_within {config : SolverConfig α} {x0 : Vec α} {inherited : Option α} (o : σ) :
    (solve rule attempts problem config x0 (.start o inherited)).2.views.size ≤
      config.maxIterations := by
  have hends : Ends (solve rule attempts problem config x0) (.start o inherited)
      (fun _ s => s.views.size ≤ config.maxIterations)
      (fun _ s => s.views.size ≤ config.maxIterations) := by
    rw [solve_eq_stages]
    refine .bind ((opening_spec (.start o inherited)).imp ?_ ?_)
    · rintro _ s ⟨-, log, rfl⟩
      have hnone : ({ start o inherited with log } : Session σ α).views.size +
          config.maxIterations ≤ config.maxIterations := Nat.le_of_eq (Nat.zero_add _)
      refine .bind ((loop_within _ hnone).imp (fun halted s₁ hloop => ?_) fun _ _ h => h)
      refine (closing_keeps halted s₁).imp (fun _ s₂ hclosing => ?_) fun _ s₂ hclosing => ?_
      · rwa [hclosing.1]
      · rwa [hclosing]
    · rintro stop s ⟨-, error, log, -, -, rfl⟩
      exact Nat.zero_le _
  exact hends.state

end Downhill
