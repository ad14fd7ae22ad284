import Downhill.Proofs.Run.Certificate
import Downhill.Proofs.Run.Renumbering

/-! # Restarts

To stop a run and to start again from its result is the same as not to stop, if the rule keeps no
memory.
-/

namespace Downhill

open Session Descent

variable {σ α : Type} [Scalar α] [Kernel α] {rule : Rule α} {attempts : Nat}
  {inherited : Option α}

/-! ## Starting at a stationary point -/

/-- Where the gradient meets the threshold, any number of rounds is too many. -/
theorem remainder_of_stationary {problem : Objective σ α} {config : SearchConfig α} {x : Vec α}
    {state : Convergence α} (hpending : state.converged = false) {looked : Vec α × Convergence α}
    {s s' : Session σ α} (hlook : look problem x state s = (.ok looked, s'))
    (hconverged : looked.2.converged = true) (n : Nat) :
    (loop rule attempts problem config n x state >>= closing problem) s =
      conclude problem x looked.2 s' := by
  cases n with
  | zero => rw [remainder_zero x hpending, bind_apply, hlook]
  | succ n =>
      rw [remainder_succ, bind_apply, hlook]
      dsimp only
      rw [if_pos hconverged]

/-- A run that starts where the gradient meets the threshold looks at it and at the value, and
returns the point. -/
theorem solve_stationary (attempts : Nat) {problem : Objective σ α} {f : Answers α}
    (h : problem.Gives f) {config : SolverConfig α} {x gradient : Vec α} {value : α}
    (hstart : Admissible rule config problem.unknowns x) (hgradient : f.gradient x = .ok gradient)
    (hfinite : Scalar.isFinite gradient.normSq = true) (hmeets : gradient.normSq ≤ config.threshold)
    (hvalue : f.value x = .ok value) (inherited : Option α) (o : σ) :
    ∃ session, solve rule attempts problem config x (.start o inherited) =
        (.ok ⟨x, 0, true, value, gradient.normSq⟩, session) ∧
      session.views = #[] ∧ session.objective = problem.replay o [.gradient x, .value x] := by
  obtain ⟨log, hsolve⟩ := solve_of_admissible hstart (.start o inherited)
  -- The gradient is looked at first, and the test is met.
  let looked := (Convergence.start config).observe gradient.normSq
  have hconverged : looked.converged = true := decide_eq_true hmeets
  have hlook : look problem x (.start config) { (start o inherited : Session σ α) with log } =
      (.ok (gradient, looked), { (start o inherited : Session σ α) with
        log, objective := problem.after o (.gradient x) }) :=
    look_eq (Prod.ext ((h.gradient x _).trans hgradient) rfl) hfinite
  have hend : problem.value x (problem.after o (.gradient x)) =
      (.ok value, problem.after (problem.after o (.gradient x)) (.value x)) :=
    Prod.ext ((h.value x _).trans hvalue) rfl
  rw [hsolve, remainder_of_stationary rfl hlook hconverged, conclude_eq hend]
  refine ⟨_, Prod.ext ?_ rfl, rfl, rfl⟩
  simp [Convergence.solution, looked, Convergence.observe, Convergence.start, hmeets]

/-! ## Starting at the point of a result -/

section Restart

variable {problem : Objective σ α} {f : Answers α} {config : SolverConfig α} {x0 : Vec α}
  {o : σ} {limit : Nat} {solution : Solution α} {session : Session σ α}

/-- The result of a run belongs to the point where its loop halted. -/
theorem exists_halt
    (hfirst : solve rule attempts problem { config with maxIterations := limit } x0
      (.start o inherited) = (.ok solution, session)) :
    ∃ log state s, Admissible rule config problem.unknowns solution.x ∧
      opening rule problem config x0 (.start o inherited) =
        (.ok (), { start o inherited with log }) ∧
      loop rule attempts problem config.lineSearch limit x0 (.start config)
        { start o inherited with log } = (.ok (solution.x, state), s) ∧
      closing problem (solution.x, state) s = (.ok solution, session) ∧
      session.views = s.views ∧ solution.iterations = state.iteration ∧
      state.threshold = config.threshold := by
  rw [solve_eq_stages] at hfirst
  obtain ⟨_, s₁, hopening, hfirst⟩ := bind_ok hfirst
  obtain ⟨halted, s, hloop, hclosing⟩ := bind_ok hfirst
  obtain ⟨hstart, log, rfl⟩ := (opening_spec (.start o inherited)).answer hopening
  have hadvanced := (loop_advances limit _ rfl).answer hloop
  obtain ⟨hviews, hx, hiterations⟩ := (closing_keeps halted s).answer hclosing
  obtain ⟨x, state⟩ := halted
  subst hx
  refine ⟨log, state, s, ⟨hstart.rule_valid, hstart.config_valid, ?_⟩, hopening, hloop, hclosing,
    hviews, hiterations, hadvanced.threshold_eq⟩
  exact hadvanced.length_eq.trans hstart.dimension

/-- To start at a converged result is to return it, after a look at the gradient and the value. -/
theorem restart_of_converged (h : problem.Gives f)
    (hfirst : solve rule attempts problem { config with maxIterations := limit } x0
      (.start o inherited) = (.ok solution, session)) (hconverged : solution.converged = true)
    (more : Nat) (inherited' : Option α) (o' : σ) :
    ∃ session', solve rule attempts problem { config with maxIterations := more } solution.x
        (.start o' inherited') = (.ok { solution with iterations := 0 }, session') ∧
      session'.views = #[] ∧
      session'.objective = problem.replay o' [.gradient solution.x, .value solution.x] := by
  obtain ⟨-, -, -, hstart, -⟩ := exists_halt hfirst
  obtain ⟨_, -, hfinished⟩ := solve_finished h hfirst
  obtain ⟨gradient, hgradient, hnorm⟩ := hfinished.gradient_eq
  have hfinite := hfinished.finite
  have hmeets := hfinished.converged_eq
  rw [hconverged, hnorm] at hmeets
  rw [hnorm] at hfinite
  have hstart' : Admissible rule { config with maxIterations := more } problem.unknowns
      solution.x := ⟨hstart.rule_valid, hstart.config_valid, hstart.dimension⟩
  have hstationary := solve_stationary attempts h hstart' hgradient hfinite
    (of_decide_eq_true hmeets.symm) hfinished.value_eq inherited' o'
  rwa [← hnorm, ← hconverged] at hstationary

/-- From the same point on, two runs go on alike, whatever was collected before. -/
theorem remainder_later (h : problem.Gives f) (hrule : rule.Memoryless) (attempts : Nat)
    (search : SearchConfig α) (n : Nat) (x : Vec α) {k : Nat} {state early : Convergence α}
    (hahead : state.Ahead k early) (s t : Session σ α) :
    let late := (loop rule attempts problem search n x state >>= closing problem) s
    let first := (loop rule attempts problem search n x early >>= closing problem) t
    late.1 = laterResult k first.1 ∧ ∃ views, first.2.views = t.views ++ views ∧
      late.2.views = s.views ++ views.map (View.later k) := by
  intro late first
  obtain ⟨rest, hrest⟩ : ∃ rest, (loop rule attempts f.traced search n x state >>=
    closing f.traced) (bare s.carried) = rest := ⟨_, rfl⟩
  obtain ⟨rest', hrest'⟩ : ∃ rest', (loop rule attempts f.traced search n x early >>=
    closing f.traced) (bare t.carried) = rest' := ⟨_, rfl⟩
  have hlate : late = (rest.1, s.resume problem rest.2) :=
    hrest ▸ remainder_eq_resume h s search n x state
  have hfirst : first = (rest'.1, t.resume problem rest'.2) :=
    hrest' ▸ remainder_eq_resume h t search n x early
  have hcouples : Corresponds (Ahead k) _ _ rest rest' :=
    hrest ▸ hrest' ▸ couples_remainder hrule search n x hahead (bare s.carried) (bare t.carried)
      ⟨rfl, by simp [bare]⟩
  rw [hlate, hfirst]
  cases hcouples with
  | ok hsolution hstates =>
      exact ⟨congrArg Except.ok hsolution, _, rfl, congrArg (s.views ++ ·) hstates.views_eq⟩
  | error hstop hstates =>
      exact ⟨congrArg Except.error hstop, _, rfl, congrArg (s.views ++ ·) hstates.views_eq⟩

/-- A run with a higher cap does what is left to do where the lower cap halted it. -/
theorem solve_of_halt {log : Array (Event α)} {x : Vec α} {state : Convergence α} {s : Session σ α}
    (hopening : opening rule problem config x0 (.start o inherited) =
      (.ok (), { start o inherited with log }))
    (hloop : loop rule attempts problem config.lineSearch limit x0 (.start config)
      { start o inherited with log } = (.ok (x, state), s)) (more : Nat) :
    solve rule attempts problem { config with maxIterations := limit + more } x0
        (.start o inherited) =
      ((if state.converged then pure (x, state)
        else loop rule attempts problem config.lineSearch more x state) >>= closing problem) s := by
  have hopening' : opening rule problem { config with maxIterations := limit + more } x0
      (.start o inherited) = (.ok (), { start o inherited with log }) := hopening
  have hloop' : loop rule attempts problem config.lineSearch limit x0
      (.start { config with maxIterations := limit + more }) { start o inherited with log } =
        (.ok (x, state), s) := hloop
  rw [solve_eq_stages, bind_apply, hopening']
  dsimp only
  rw [loop_add limit more x0 _ rfl, bind_assoc, bind_apply, hloop']

/-- To stop a run of a rule without memory and to start again from its result is the same as not to
stop, but for the numbers of the iterations. From a converged result there is nothing left to do. -/
theorem solve_restarts (h : problem.Gives f) (hrule : rule.Memoryless)
    (hfirst : solve rule attempts problem { config with maxIterations := limit } x0
      (.start o inherited) = (.ok solution, session)) (more : Nat) (inherited' : Option α)
    (o' : σ) :
    let again := solve rule attempts problem { config with maxIterations := more } solution.x
      (.start o' inherited')
    let long := solve rule attempts problem { config with maxIterations := limit + more } x0
      (.start o inherited)
    (long.1 = laterResult solution.iterations again.1 ∧
      long.2.views = session.views ++ again.2.views.map (View.later solution.iterations)) ∧
    (solution.converged = true → again.1 = .ok { solution with iterations := 0 } ∧
      again.2.views = #[] ∧
      again.2.objective = problem.replay o' [.gradient solution.x, .value solution.x]) := by
  intro again long
  refine ⟨?_, fun hconverged => ?_⟩
  · obtain ⟨log, state, s, hstart, hopening, hloop, hclosing, hviews, hiterations, hthreshold⟩ :=
      exists_halt hfirst
    have hlong := solve_of_halt hopening hloop more
    change long = _ at hlong
    cases hconverged : state.converged with
    | true =>
        -- The longer run stops at the same place, and the second one has nothing to do.
        rw [hconverged, if_pos rfl, pure_bind, hclosing] at hlong
        have hsolution : solution.converged = true := by
          rw [closing_of_converged _ _ hconverged] at hclosing
          exact ((conclude_keeps _ _ s).answer hclosing).2.2.2.trans hconverged
        obtain ⟨session', hagain, hnone, -⟩ :=
          restart_of_converged h hfirst hsolution more inherited' o'
        change again = _ at hagain
        rw [hlong, hagain]
        exact ⟨rfl, by simp [hnone]⟩
    | false =>
        -- Both runs do the rest, from the same point but with different numbers.
        rw [hconverged, if_neg (by simp)] at hlong
        have hstart' : Admissible rule { config with maxIterations := more } problem.unknowns
            solution.x := ⟨hstart.rule_valid, hstart.config_valid, hstart.dimension⟩
        obtain ⟨log', hagain⟩ := solve_of_admissible hstart' (.start o' inherited')
        change again = _ at hagain
        have hahead : state.Ahead solution.iterations (.start config) :=
          ⟨hiterations.symm, hthreshold, hconverged, nofun⟩
        obtain ⟨hresult, views, hshown, hshown'⟩ := remainder_later h hrule attempts
          config.lineSearch more solution.x hahead s { start o' inherited' with log := log' }
        have hagain' : again.2.views = #[] ++ views := (congrArg (·.2.views) hagain).trans hshown
        rw [hlong, hshown', hagain', hviews, Array.empty_append]
        exact ⟨hresult.trans (congrArg (fun ended => laterResult _ ended.1) hagain.symm), rfl⟩
  · obtain ⟨session', hagain, hnone, hobjective⟩ :=
      restart_of_converged h hfirst hconverged more inherited' o'
    change again = _ at hagain
    rw [hagain]
    exact ⟨rfl, hnone, hobjective⟩

/-- On the saddle, two iterations and then two more converge as four at once do. -/
theorem saddle_restarts :
    ∃ solution session,
      solve (.stabilised (.shiftByGamma 10.0)) 100 ((Problem.saddle .default).objective Unit)
        ⟨1e-4, 2, .default⟩ [0.5, 0.2] (.start ()) = (.ok solution, session) ∧
      (!solution.converged && solution.iterations == 2) = true ∧
      (solve (.stabilised (.shiftByGamma 10.0)) 100
        ((Problem.saddle (.default : Saddle Float)).objective Unit) ⟨1e-4, 2 + 2, .default⟩
        [0.5, 0.2] (.start ())).1 =
        laterResult solution.iterations (solve (.stabilised (.shiftByGamma 10.0)) 100
          ((Problem.saddle .default).objective Unit) ⟨1e-4, 2, .default⟩ solution.x
          (.start ())).1 := by
  obtain ⟨solution, session, hrun, htest⟩ := exists_of_answersWith
    (solve (.stabilised (.shiftByGamma 10.0)) 100 ((Problem.saddle .default).objective Unit)
      ⟨1e-4, 2, .default⟩ [0.5, 0.2])
    (.start ()) (fun solution _ => !solution.converged && solution.iterations == 2)
    (by decide +kernel)
  refine ⟨solution, session, hrun, htest, ?_⟩
  have hgives : ((Problem.saddle (.default : Saddle Float)).objective Unit).Gives _ :=
    Problem.objective_gives _
  let config : SolverConfig Float := ⟨1e-4, 2, .default⟩
  have hfirst : solve (.stabilised (.shiftByGamma 10.0)) 100
      ((Problem.saddle .default).objective Unit) { config with maxIterations := 2 } [0.5, 0.2]
      (.start ()) = (.ok solution, session) := hrun
  exact (solve_restarts hgives (.diagonalShift _ rfl) hfirst 2 none ()).1.1

end Restart

end Downhill
