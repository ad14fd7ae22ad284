import Downhill.Proofs.Run.Counting
import Downhill.Proofs.Run.Decrease
import Downhill.Proofs.Run.Evaluations

/-! # The tally of a recorded solve

A recorder that starts empty has counted, at the end of a solve, one gradient for every point that
was visited, one Hessian for every direction that needed it, and the values that the line searches
looked at. Its observations are those of the visited points, in order.
-/

namespace Downhill

open Session

variable {σ α : Type} [Scalar α]

/-! ## What there is to count -/

/-- The number of Hessians evaluated for `k` directions. -/
def Rule.hessianCount {α : Type} (rule : Rule α) (k : Nat) : Nat :=
  match rule with
  | .steepest => 0
  | .newton => k
  | .stabilised _ => k

/-- The line search of the iteration that `view` shows ends in `outcome`. -/
structure Searches (f : Answers α) (config : SearchConfig α) (view : View α)
    (outcome : SearchOutcome α) : Prop where
  outcome_eq : (f.search view.x view.direction view.gradient config).1 = .ok outcome
  step_eq : outcome.step = view.step
  status_eq : outcome.status = view.status

/-- The line searches of the iterations that `views` show look at `count` values in all. -/
def SearchesCount (f : Answers α) (config : SearchConfig α) (views : List (View α))
    (count : Nat) : Prop :=
  ∃ outcomes, List.Forall₂ (Searches f config) views outcomes ∧
    (outcomes.map SearchOutcome.evaluations).sum = count

/-- What a recorder holds after a solve that showed `views` and has a result. -/
structure Tallied (f : Answers α) (rule : Rule α) (config : SearchConfig α)
    (views : List (View α)) (solution : Solution α) (r : Recorder σ α) : Prop where
  iterations : views.length = solution.iterations
  gradients : r.gradientEvaluations = solution.iterations + 1
  hessians : r.hessianEvaluations = rule.hessianCount solution.iterations
  values : ∃ count, SearchesCount f config views count ∧ r.valueEvaluations = 1 + count
  values_le : r.valueEvaluations ≤ 1 + solution.iterations * (config.maxShrinks + 2)
  observed : r.observations.size = solution.iterations + 1
  observation : ∀ j x, (route views solution.x)[j]? = some x →
    ∃ value gradient, f.value x = .ok value ∧ f.gradient x = .ok gradient ∧
      r.observations[j]? = some (⟨j, value, gradient.norm⟩ : Observation α)
  statistics : r.statistics.iterations = solution.iterations
  last : r.observations.back? =
    some ⟨solution.iterations, solution.value, solution.gradientNorm⟩

/-- What a recorder holds after a solve that showed `views` and then failed in iteration `i`. -/
structure TalliedUntil (f : Answers α) (rule : Rule α) (config : SearchConfig α)
    (views : List (View α)) (error : SolverError α) (i : Nat) (r : Recorder σ α) : Prop where
  iterations : views.length = i
  gradients : r.gradientEvaluations = i + 1
  hessians : error = .nonFiniteGradient i ∧ r.hessianEvaluations = rule.hessianCount i ∨
    RefusesAt i error ∧ r.hessianEvaluations = rule.hessianCount (i + 1)
  values : SearchesCount f config views r.valueEvaluations
  statistics : r.statistics.iterations = i

/-! ## Counting the evaluations of iterations -/

section Counts

variable {f : Answers α} {rule : Rule α} {config : SearchConfig α} {view : View α}
  {views : List (View α)}

omit [Scalar α] in
theorem Rule.hessianCount_succ (rule : Rule α) (x : Vec α) (k : Nat) :
    rule.hessianCount (k + 1) =
      rule.hessianCount k + (rule.hessianCalls x).countP Call.isHessian := by
  cases rule <;> rfl

omit [Scalar α] in
theorem Rule.only_hessians (rule : Rule α) (x : Vec α) :
    (rule.hessianCalls x).filterMap Call.gradientPoint? = [] ∧
      (rule.hessianCalls x).countP Call.isValue = 0 := by
  cases rule <;> exact ⟨rfl, rfl⟩

omit [Scalar α] in
theorem Call.countP_isGradient (calls : List (Call α)) :
    calls.countP Call.isGradient = (calls.filterMap Call.gradientPoint?).length := by
  rw [List.length_filterMap_eq_countP]
  congr 1
  funext call
  cases call <;> rfl

omit [Scalar α] in
theorem OnlyValues.countP {calls : List (Call α)} (h : OnlyValues [] calls) :
    calls.countP Call.isHessian = 0 ∧ calls.countP Call.isValue = calls.length := by
  obtain ⟨trials, rfl⟩ := h
  constructor <;> simp [Function.comp_def, Call.isHessian, Call.isValue]

namespace View

theorem search_onlyValues (f : Answers α) (config : SearchConfig α) (view : View α) :
    OnlyValues [] (f.search view.x view.direction view.gradient config).2 :=
  LineSearch.search_onlyValues

theorem gradientPoints (view : View α) :
    (view.calls f rule config).filterMap Call.gradientPoint? = [view.x] := by
  have hrule := (rule.only_hessians view.x).1
  have hsearch := (view.search_onlyValues f config).gradientPoints
  simp only [calls, List.filterMap_cons, Call.gradientPoint?, List.filterMap_append, hrule, hsearch,
    List.filterMap_nil, List.append_nil]

theorem countP_hessian (view : View α) (k : Nat) :
    rule.hessianCount (k + 1) =
      rule.hessianCount k + (view.calls f rule config).countP Call.isHessian := by
  rw [calls, List.countP_cons, List.countP_append, (view.search_onlyValues f config).countP.1]
  exact rule.hessianCount_succ view.x k

end View

theorem Searches.countP_value {outcome : SearchOutcome α} (h : Searches f config view outcome) :
    (view.calls f rule config).countP Call.isValue = outcome.evaluations := by
  rw [View.calls, List.countP_cons, List.countP_append, (rule.only_hessians view.x).2,
    (view.search_onlyValues f config).countP.2, (LineSearch.search_trials h.outcome_eq).1]
  exact Nat.zero_add _

theorem gradientPoints_views (views : List (View α)) :
    (views.flatMap (View.calls f rule config)).filterMap Call.gradientPoint? =
      views.map View.x := by
  induction views with
  | nil => rfl
  | cons view views ih =>
      rw [List.flatMap_cons, List.filterMap_append, view.gradientPoints, ih]
      rfl

theorem countP_hessian_views (views : List (View α)) :
    (views.flatMap (View.calls f rule config)).countP Call.isHessian =
      rule.hessianCount views.length := by
  induction views with
  | nil => cases rule <;> rfl
  | cons view views ih =>
      rw [List.flatMap_cons, List.countP_append, ih, List.length_cons, Nat.add_comm,
        ← view.countP_hessian]

theorem searchesCount_views (rule : Rule α)
    (h : ∀ view ∈ views, ∃ outcome, Searches f config view outcome) :
    SearchesCount f config views
      ((views.flatMap (View.calls f rule config)).countP Call.isValue) := by
  induction views with
  | nil => exact ⟨[], .nil, rfl⟩
  | cons view views ih =>
      obtain ⟨outcome, houtcome⟩ := h view (by simp)
      obtain ⟨outcomes, houtcomes, hsum⟩ := ih fun later hlater => h later (by simp [hlater])
      refine ⟨outcome :: outcomes, .cons houtcome houtcomes, ?_⟩
      rw [List.flatMap_cons, List.countP_append, houtcome.countP_value, ← hsum]
      rfl

theorem SearchesCount.le {count : Nat} (h : SearchesCount f config views count) :
    count ≤ views.length * (config.maxShrinks + 2) := by
  obtain ⟨outcomes, houtcomes, rfl⟩ := h
  induction houtcomes with
  | nil => simp
  | cons houtcome _ ih =>
      have hle := SearchOutcome.evaluations_le (LineSearch.search_trials houtcome.outcome_eq).2
      rw [List.map_cons, List.sum_cons, List.length_cons, Nat.succ_mul]
      omega

/-- In its last iteration, a run that stops takes one gradient, and a Hessian if the rule
refuses. -/
theorem StopsEvaluated.rest {s : Session (List (Call α)) α} {error : SolverError α} {i : Nat}
    (h : StopsEvaluated f rule config s error) (hi : error.iteration? = some i) :
    ∃ x gradient rest, f.gradient x = .ok gradient ∧
      s.Evaluated f rule config (.gradient x :: rest) ∧
      rest.filterMap Call.gradientPoint? = [] ∧ rest.countP Call.isValue = 0 ∧
      (error = .nonFiniteGradient i ∧ rest.countP Call.isHessian = 0 ∨
        RefusesAt i error ∧
          rule.hessianCount (i + 1) = rule.hessianCount i + rest.countP Call.isHessian) := by
  cases h with
  | nonFinite hgradient hevaluated =>
      cases hi
      exact ⟨_, _, [], hgradient, hevaluated, rfl, rfl, .inl ⟨rfl, rfl⟩⟩
  | @refused j x gradient _ hrefuses hgradient hevaluated =>
      rw [hrefuses.iteration?_eq] at hi
      cases hi
      obtain ⟨hpoints, hvalues⟩ := rule.only_hessians x
      exact ⟨x, gradient, _, hgradient, hevaluated, hpoints, hvalues,
        .inr ⟨hrefuses, rule.hessianCount_succ x i⟩⟩

end Counts

/-! ## Counting the evaluations of a run -/

section Evaluated

variable {problem : Objective σ α} {f : Answers α} {rule : Rule α} {config : SearchConfig α}
  {views : List (View α)} {x : Vec α} {calls rest : List (Call α)}
  (hrest : rest.filterMap Call.gradientPoint? = [])
  (hcalls : calls = views.flatMap (View.calls f rule config) ++ .gradient x :: rest)

include hrest hcalls

theorem gradientPoints_of_evaluated : calls.filterMap Call.gradientPoint? = route views x := by
  rw [hcalls, List.filterMap_append, gradientPoints_views, List.filterMap_cons, hrest]
  rfl

/-- After the evaluations of `views`, a gradient and whatever is left in `rest`, a recorder that
started empty has counted them all. -/
theorem counts_of_evaluated
    (hsearches : ∀ view ∈ views, ∃ outcome, Searches f config view outcome) (r : Recorder σ α) :
    let after := (Recorder.objective problem).replay r.reset calls
    after.gradientEvaluations = views.length + 1 ∧
      after.hessianEvaluations = rule.hessianCount views.length + rest.countP Call.isHessian ∧
      ∃ count, SearchesCount f config views count ∧
        after.valueEvaluations = count + rest.countP Call.isValue := by
  have hcounts : r.reset.Counts calls ((Recorder.objective problem).replay r.reset calls) :=
    counts_replay r.reset calls
  refine ⟨?_, ?_, _, searchesCount_views rule hsearches, ?_⟩
  · rw [hcounts.gradients, Call.countP_isGradient, gradientPoints_of_evaluated hrest hcalls]
    simp [route, Recorder.reset, Recorder.start]
  · rw [hcounts.hessians, hcalls, List.countP_append, countP_hessian_views, List.countP_cons]
    exact Nat.zero_add _
  · rw [hcounts.values, hcalls, List.countP_append, List.countP_cons]
    exact Nat.zero_add _

end Evaluated

/-! ## Solves -/

section Solves

variable [Kernel α] {rule : Rule α} {attempts : Nat} {config : SolverConfig α} {x0 : Vec α}
  {inherited : Option α} {problem : Objective σ α} {f : Answers α}
  {views : List (View α)}

omit [Kernel α] in
theorem Answers.recorded_search (f : Answers α) (x d gradient : Vec α) (config : SearchConfig α) :
    f.recorded.search x d gradient config = f.search x d gradient config := by
  have hvalue : f.recorded.traced.value = f.traced.value := rfl
  exact congrFun (LineSearch.backtracking_congr hvalue x d gradient config) []

omit [Kernel α] in
theorem View.calls_recorded (f : Answers α) (rule : Rule α) (config : SearchConfig α) :
    View.calls f.recorded rule config = View.calls f rule config := by
  funext view
  simp only [View.calls, Answers.recorded_search]

/-- The line searches of a recorded run are those of the objective inside. -/
theorem Chronicle.searches (h : Chronicle f.recorded rule attempts config x0 inherited views) :
    ∀ view ∈ views, ∃ outcome, Searches f config.lineSearch view outcome := by
  intro view hview
  obtain ⟨i, hi⟩ := List.getElem?_of_mem hview
  obtain ⟨outcome, houtcome, hstep, hstatus⟩ := (h.shown i view hi).searched
  exact ⟨outcome, f.recorded_search _ _ _ _ ▸ houtcome, hstep, hstatus⟩

theorem tallied_of_ok (h : problem.Gives f) {r : Recorder σ α} {solution : Solution α}
    {session : Session (Recorder σ α) α}
    (hrun : solve rule attempts (Recorder.objective problem) config x0 (.start r.reset inherited) =
      (.ok solution, session)) :
    Tallied f rule config.lineSearch session.views.toList solution session.objective := by
  obtain ⟨calls, hcalls, htraced⟩ := exists_calls (recorder_gives h) hrun
  have hadmissible : Admissible rule config f.recorded.unknowns x0 := by
    rw [← (recorder_gives h).unknowns]
    exact admissible_of_ok hrun
  have hfinished := (solve_ends hadmissible).answer htraced
  have hiterations : session.views.toList.length = solution.iterations :=
    hfinished.iterations_eq.symm
  obtain ⟨gradient, hgradient, hnorm⟩ := hfinished.gradient_eq
  have hcalls' : calls = session.views.toList.flatMap (View.calls f rule config.lineSearch) ++
      [.gradient solution.x, .value solution.x] := by
    rw [← View.calls_recorded]
    exact solve_evaluates.answer htraced
  obtain ⟨hgradients, hhessians, count, hcount, hvalues⟩ :=
    counts_of_evaluated rfl hcalls' hfinished.chronicle.searches r
  obtain ⟨hsize, hobservation⟩ := observations_of_answered h r hfinished.gradients
    (hfinished.chronicle.answered hgradient)
  rw [← hcalls] at hgradients hhessians hvalues hsize hobservation
  rw [hiterations] at hgradients hhessians
  replace hvalues : session.objective.valueEvaluations = 1 + count :=
    hvalues.trans (Nat.add_comm count 1)
  replace hsize : session.objective.observations.size = solution.iterations + 1 := by
    rw [hsize]
    simp [hiterations]
  refine ⟨hiterations, hgradients, hhessians, ⟨count, hcount, hvalues⟩, ?_, hsize, hobservation,
    Nat.sub_eq_of_eq_add hsize, ?_⟩
  · rw [hvalues, ← hiterations]
    exact Nat.add_le_add_left hcount.le 1
  · -- The last point of the route is the result, and its observation is the last one.
    have hend :
        (route session.views.toList solution.x)[solution.iterations]? = some solution.x := by
      simp [route, ← hiterations]
    obtain ⟨value, gradient', hvalue, hgradient', hseen⟩ := hobservation _ _ hend
    cases hvalue.symm.trans hfinished.value_eq
    cases hgradient'.symm.trans (recorded_gradient_ok hgradient)
    rw [Array.back?, hsize, Nat.add_sub_cancel, hseen, Solution.gradientNorm, hnorm]
    rfl

theorem tallied_of_error (h : problem.Gives f) {r : Recorder σ α} {error : SolverError α} {i : Nat}
    {session : Session (Recorder σ α) α}
    (hrun : solve rule attempts (Recorder.objective problem) config x0 (.start r.reset inherited) =
      (.error (.error error), session)) (hi : error.iteration? = some i) :
    TalliedUntil f rule config.lineSearch session.views.toList error i session.objective := by
  obtain ⟨calls, hcalls, htraced⟩ := exists_calls (recorder_gives h) hrun
  have hchronicle := solve_chronicle (recorder_gives h) hrun
  -- An error with an iteration is not about the parameters.
  have hstarted : ¬ Rejects error := by
    intro hrejects
    rw [hrejects.iteration?_eq] at hi
    contradiction
  have hiterations : session.views.toList.length = i := by
    rcases (solve_counts r.reset).stop hrun error rfl with ⟨hrejects, -⟩ | hcount
    · exact absurd hrejects hstarted
    · rw [hi] at hcount
      exact (Option.some.inj hcount).symm
  have hstops := (solve_evaluates.stop htraced error rfl).resolve_left hstarted
  obtain ⟨x, gradient, rest, hgradient, hevaluated, hpoints, hvalue, hhessian⟩ := hstops.rest hi
  have hcalls' : calls = session.views.toList.flatMap (View.calls f rule config.lineSearch) ++
      .gradient x :: rest := by
    rw [← View.calls_recorded]
    exact hevaluated
  obtain ⟨hgradients, hhessians, count, hcount, hvalues⟩ :=
    counts_of_evaluated hpoints hcalls' hchronicle.searches r
  have hsize := (observations_of_answered h r (gradientPoints_of_evaluated hpoints hcalls')
    (hchronicle.answered hgradient)).1
  rw [← hcalls] at hgradients hhessians hvalues hsize
  rw [hiterations] at hgradients hhessians
  refine ⟨hiterations, hgradients, ?_, ?_, ?_⟩
  · rcases hhessian with ⟨hnonFinite, hnone⟩ | ⟨hrefuses, hone⟩
    · exact .inl ⟨hnonFinite, by rw [hhessians, hnone, Nat.add_zero]⟩
    · exact .inr ⟨hrefuses, by rw [hhessians, hone]⟩
  · rw [hvalues, hvalue]
    exact hcount
  · apply Nat.sub_eq_of_eq_add
    simp [hsize, route, ← hiterations]

/-- The counters of a recorder that is fresh or has been reset account for every evaluation of a
solve, and its observations are those of the visited points. -/
theorem solve_tallied (h : problem.Gives f) (rule : Rule α) (attempts : Nat)
    (config : SolverConfig α) (x0 : Vec α) (inherited : Option α) (r : Recorder σ α) :
    (∀ solution session, solve rule attempts (Recorder.objective problem) config x0
        (.start r.reset inherited) = (.ok solution, session) →
      Tallied f rule config.lineSearch session.views.toList solution session.objective) ∧
    (∀ error i session, solve rule attempts (Recorder.objective problem) config x0
        (.start r.reset inherited) = (.error (.error error), session) → error.iteration? = some i →
      TalliedUntil f rule config.lineSearch session.views.toList error i session.objective) :=
  ⟨fun _ _ hrun => tallied_of_ok h hrun, fun _ _ _ hrun hi => tallied_of_error h hrun hi⟩

end Solves

/-- Two recorded runs on the saddle: stabilised Newton arrives, and plain Newton leaves the region
where the Hessian is positive definite with its first step. -/
theorem saddle_tallied :
    (∃ solution session,
      solve (.stabilised (.shiftByGamma 10.0)) 100
        (Recorder.objective ((Problem.saddle .default).objective Unit)) ⟨1e-4, 10, .default⟩
        [0.5, 0.2] (.start (Recorder.start ()).reset) = (.ok solution, session) ∧
      Tallied (Problem.saddle (.default : Saddle Float)).answers
        (.stabilised (.shiftByGamma 10.0)) .default session.views.toList solution
        session.objective) ∧
    ∃ session,
      solve .newton 100 (Recorder.objective ((Problem.saddle .default).objective Unit))
        ⟨1e-4, 10, ⟨3.0, 0.01, 0.75, 1000⟩⟩ [0.0, 1.5] (.start (Recorder.start ()).reset) =
          (.error (.error (.hessianNotPositiveDefinite 1)), session) ∧
      TalliedUntil (Problem.saddle (.default : Saddle Float)).answers .newton
        ⟨3.0, 0.01, 0.75, 1000⟩ session.views.toList (.hessianNotPositiveDefinite 1) 1
        session.objective := by
  constructor
  · obtain ⟨solution, session, hrun, -⟩ := exists_of_answersWith
      (solve (.stabilised (.shiftByGamma 10.0)) 100
        (Recorder.objective ((Problem.saddle .default).objective Unit)) ⟨1e-4, 10, .default⟩
        [0.5, 0.2])
      (.start (Recorder.start ()).reset) (fun _ _ => true) (by decide +kernel)
    exact ⟨solution, session, hrun,
      (solve_tallied (Problem.objective_gives _) _ _ _ _ _ _).1 solution session hrun⟩
  · obtain ⟨session, hrun, -⟩ := exists_of_stopsWith
      (solve .newton 100 (Recorder.objective ((Problem.saddle .default).objective Unit))
        ⟨1e-4, 10, ⟨3.0, 0.01, 0.75, 1000⟩⟩ [0.0, 1.5])
      (.start (Recorder.start ()).reset) (.error (.hessianNotPositiveDefinite 1))
      (fun _ => true) (by decide +kernel)
    exact ⟨session, hrun,
      (solve_tallied (Problem.objective_gives _) _ _ _ _ _ _).2 _ 1 session hrun rfl⟩

end Downhill
