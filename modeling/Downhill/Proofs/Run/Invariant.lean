import Downhill.Proofs.Run.Outcome

/-! # Invariants of a run

A property that the start has and that every step keeps belongs to all points of a run. The same
holds of a relation to an earlier point. If evaluations and directions never fail where the property
holds, the run returns a solution.
-/

namespace Downhill

open Session

variable {σ α : Type} [Scalar α] [Kernel α] {f : Answers α} {rule : Rule α} {attempts : Nat}
  {config : SolverConfig α} {x0 : Vec α} {inherited : Option α} {P : Vec α → Prop}

/-- Every step that a view shows at a point where `P` holds ends at such a point. -/
def StepsKeep (f : Answers α) (rule : Rule α) (attempts : Nat) (config : SolverConfig α)
    (P : Vec α → Prop) : Prop :=
  ∀ (carried : Option α) (view : View α), Shown f rule attempts config carried view → P view.x →
    ∃ next, view.x.move view.step view.direction = .ok next ∧ P next

/-! ## Points -/

namespace Chronicle

variable {views : List (View α)} (h : Chronicle f rule attempts config x0 inherited views)
  (hkeep : StepsKeep f rule attempts config P)

include h hkeep

theorem keeps (hstart : P x0) {i : Nat} (hi : i ≤ views.length) :
    ∃ x, reached x0 (views.take i) = .ok x ∧ P x := by
  induction i with
  | zero => exact ⟨x0, by simp, hstart⟩
  | succ i ih =>
      obtain ⟨x, hx, hP⟩ := ih (by omega)
      have hview : views[i]? = some views[i] := List.getElem?_eq_getElem (by omega)
      have hstands := h.stands i _ hview
      rw [hx] at hstands
      cases hstands
      obtain ⟨next, hnext, hkept⟩ := hkeep _ _ (h.shown i _ hview) hP
      exact ⟨next, (reached_take_succ x0 hview).trans hnext, hkept⟩

/-- If all that the steps keep to includes what stands in a relation to an earlier point, then any
two points stand in that relation. -/
theorem relates {R : Vec α → Vec α → Prop} (hrefl : ∀ x, P x → R x x)
    (hsteps : ∀ x, StepsKeep f rule attempts config (R x)) (hstart : P x0) {i j : Nat} (hij : i ≤ j)
    (hj : j ≤ views.length) :
    ∃ x y, reached x0 (views.take i) = .ok x ∧ reached x0 (views.take j) = .ok y ∧ R x y := by
  induction hij with
  | refl =>
      obtain ⟨x, hx, hP⟩ := h.keeps hkeep hstart hj
      exact ⟨x, x, hx, hx, hrefl x hP⟩
  | @step j hij ih =>
      obtain ⟨x, y, hx, hy, hxy⟩ := ih (by omega)
      have hview : views[j]? = some views[j] := List.getElem?_eq_getElem (by omega)
      have hstands := h.stands j _ hview
      rw [hy] at hstands
      cases hstands
      obtain ⟨z, hz, hxz⟩ := hsteps x _ _ (h.shown j _ hview) hxy
      exact ⟨x, z, hx, (reached_take_succ x0 hview).trans hz, hxz⟩

end Chronicle

/-! ## Results -/

/-- Where `P` holds, the objective answers, and there is a direction and an outcome of the search
along it. -/
structure Serves (f : Answers α) (rule : Rule α) (attempts : Nat) (config : SolverConfig α)
    (P : Vec α → Prop) : Prop where
  value : ∀ x, P x → ∃ v, f.value x = .ok v
  gradient : ∀ x, P x → ∃ g, f.gradient x = .ok g ∧ Scalar.isFinite g.normSq = true
  searched : ∀ (carried : Option α) (x g : Vec α) (iteration : Nat), P x →
    Unsettled f config.threshold x g →
      ∃ d outcome, (rule.answer attempts f carried x g iteration).1 = .ok d ∧
        (f.search x d.vector g config.lineSearch).1 = .ok outcome

namespace Descent

variable (hserves : Serves f rule attempts config P)

include hserves

theorem look_answers {x : Vec α} (hP : P x) (state : Convergence α)
    (s : Session (List (Call α)) α) :
    Ends (look f.traced x state) s
      (fun looked _ => f.gradient x = .ok looked.1 ∧
        Scalar.isFinite looked.1.normSq = true ∧ looked.2 = state.observe looked.1.normSq)
      (fun _ _ => False) := by
  obtain ⟨gradient, hgradient, hfinite⟩ := hserves.gradient x hP
  unfold look
  refine .bind (ends_evaluate (ends_gradient (fun g hg => ?_) fun fault hfault => ?_))
  · rw [hgradient] at hg
    cases hg
    dsimp only
    rw [if_pos hfinite]
    exact .pure ⟨hgradient, hfinite, rfl⟩
  · rw [hgradient] at hfault
    cases hfault

variable (hkeep : StepsKeep f rule attempts config P)

include hkeep

theorem step_answers {x gradient : Vec α} (hP : P x)
    (hunsettled : Unsettled f config.threshold x gradient) (state : Convergence α)
    (s : Session (List (Call α)) α) :
    Ends (step rule attempts f.traced config.lineSearch x gradient state) s
      (fun next _ => P next) (fun _ _ => False) := by
  obtain ⟨d, outcome, hd, houtcome⟩ :=
    hserves.searched s.carried x gradient state.iteration hP hunsettled
  have hshown : Shown f rule attempts config s.carried ⟨state.iteration, x, gradient, d.vector,
      outcome.step, outcome.status, d.regularisation⟩ :=
    ⟨hunsettled, hd, outcome, houtcome, rfl, rfl⟩
  obtain ⟨next, hnext, hkept⟩ := hkeep _ _ hshown hP
  unfold step
  refine .bind (direction_ends rfl (fun d' hd' => ?_) fun stop hstop => ?_)
  · rw [hd] at hd'
    cases hd'
    refine .bind (ends_evaluate (LineSearch.search_ends (fun outcome' houtcome' => ?_)
      fun fault hfault => ?_))
    · rw [houtcome] at houtcome'
      cases houtcome'
      refine .bind (ends_reportAll (.bind (ends_report (.bind (ends_present ?_)))))
      refine ends_settle (fun next' hnext' => ?_) fun fault hfault => ?_
      · rw [hnext] at hnext'
        cases hnext'
        exact hkept
      · rw [hnext] at hfault
        cases hfault
    · rw [houtcome] at hfault
      cases hfault
  · rw [hd] at hstop
    cases hstop

theorem loop_answers (remaining : Nat) {x : Vec α} (hP : P x) {state : Convergence α}
    (hthreshold : state.threshold = config.threshold) (s : Session (List (Call α)) α) :
    Ends (loop rule attempts f.traced config.lineSearch remaining x state) s
      (fun halted _ => P halted.1) (fun _ _ => False) := by
  induction remaining generalizing x state s with
  | zero => exact .pure hP
  | succ remaining ih =>
      refine .bind ((look_answers hserves hP state s).imp (fun looked s₁ hlooked => ?_)
        fun _ _ hfalse => hfalse)
      obtain ⟨hgradient, hfinite, hstate⟩ := hlooked
      dsimp only
      split
      · exact .pure hP
      · rename_i hpending
        have hunsettled : Unsettled f config.threshold x looked.1 :=
          ⟨hgradient, hfinite, by simpa [hstate, Convergence.observe, hthreshold] using hpending⟩
        refine .bind ((step_answers hserves hkeep hP hunsettled looked.2 s₁).imp
          (fun next s₂ hnext => ?_) fun _ _ hfalse => hfalse)
        exact ih hnext (by rw [hstate]; exact hthreshold) s₂

theorem run_answers (hstart : P x0) (hconfig : config.validate = .ok ())
    (hdimension : x0.length = f.unknowns) (s : Session (List (Call α)) α) :
    Ends (run rule attempts f.traced config x0) s (fun _ _ => True) (fun _ _ => False) := by
  unfold run
  rw [hconfig]
  simp only [f.traced_gives.unknowns, hdimension, ne_eq, not_true_eq_false, if_false]
  refine .bind (ends_report (.bind (ends_report (.bind ?_))))
  refine (loop_answers hserves hkeep config.maxIterations hstart rfl _).imp
    (fun halted s₁ hP => .bind ?_) fun _ _ hfalse => hfalse
  have hrest (state : Convergence α) (s₂ : Session (List (Call α)) α) :
      Ends (evaluate (f.traced.value halted.1)) s₂ (fun _ _ => True) (fun _ _ => False) := by
    obtain ⟨v, hv⟩ := hserves.value halted.1 hP
    exact ends_evaluate (ends_value (fun _ _ => trivial) fun fault hfault => by simp [hv] at hfault)
  have hjudge : Ends (judge f.traced halted.1 halted.2) s₁ (fun _ _ => True)
      (fun _ _ => False) := by
    unfold judge
    split
    · exact .pure trivial
    · exact .bind ((look_answers hserves hP halted.2 s₁).imp (fun _ _ _ => .pure trivial)
        fun _ _ hfalse => hfalse)
  refine hjudge.imp (fun state s₂ _ => ?_) fun _ _ hfalse => hfalse
  exact .bind (ends_report (.bind ((hrest state _).imp (fun _ _ _ => .pure trivial)
    fun _ _ hfalse => hfalse)))

end Descent

/-- A solve whose parameters are not refused returns a solution. -/
theorem solve_answers {problem : Objective σ α} (h : problem.Gives f)
    (hserves : Serves f rule attempts config P) (hkeep : StepsKeep f rule attempts config P)
    (hstart : P x0) (hadmissible : Admissible rule config problem.unknowns x0) {o : σ}
    {result : Except (Stop α) (Solution α)} {session : Session σ α}
    (hrun : solve rule attempts problem config x0 (.start o inherited) = (result, session)) :
    ∃ solution, result = .ok solution := by
  obtain ⟨calls, -, htraced⟩ := exists_calls h hrun
  obtain ⟨log, hprepare⟩ := prepare_of_valid hadmissible.rule_valid
    (.start [] inherited : Session (List (Call α)) α)
  have hends : Ends (solve rule attempts f.traced config x0) (.start [] inherited) (fun _ _ => True)
      (fun _ _ => False) := by
    refine .bind ?_
    unfold Ends
    rw [hprepare]
    exact Descent.run_answers hserves hkeep hstart hadmissible.config_valid
      (hadmissible.dimension.trans h.unknowns) _
  cases result with
  | ok solution => exact ⟨solution, rfl⟩
  | error stop => exact (hends.stop htraced).elim

section Points

variable {problem : Objective σ α} (h : problem.Gives f)
  (hkeep : Admissible rule config problem.unknowns x0 → StepsKeep f rule attempts config P)
  (hstart : P x0) {o : σ} {result : Except (Stop α) (Solution α)} {session : Session σ α}
  (hrun : solve rule attempts problem config x0 (.start o inherited) = (result, session))

include hrun in
/-- A run has views or results only if its parameters are not refused. -/
theorem views_of_not_admissible (hrefused : ¬ Admissible rule config problem.unknowns x0) :
    session.views = #[] ∧ ∃ error, Rejects error ∧ result = .error (.error error) := by
  obtain ⟨error, log, hrejects, hstop⟩ :=
    solve_of_not_admissible attempts hrefused (.start o inherited)
  rw [hstop] at hrun
  cases hrun
  exact ⟨rfl, error, hrejects, rfl⟩

include h hkeep hstart hrun

/-- In a solve, all points have a property that the steps keep, the returned point included. -/
theorem solve_keeps :
    (∀ i ≤ session.views.size, ∃ x, reached x0 (session.views.toList.take i) = .ok x ∧ P x) ∧
      ∀ solution, result = .ok solution → P solution.x := by
  by_cases hadmissible : Admissible rule config problem.unknowns x0
  · have hchronicle := solve_chronicle h hrun
    have hkeeps {i : Nat} := hchronicle.keeps (hkeep hadmissible) hstart (i := i)
    refine ⟨fun i hi => hkeeps (by simpa using hi), ?_⟩
    rintro solution rfl
    obtain ⟨calls, -, hfinished⟩ := solve_finished h hrun
    obtain ⟨x, hx, hP⟩ := hkeeps (Nat.le_refl _)
    have harrived := hfinished.arrived
    rw [List.take_length] at hx
    rw [hx] at harrived
    cases harrived
    exact hP
  · obtain ⟨hviews, error, -, rfl⟩ := views_of_not_admissible hrun hadmissible
    exact ⟨fun i _ => ⟨x0, by simp [hviews], hstart⟩, fun _ hok => by contradiction⟩

/-- In a solve, any two points stand in a relation that the steps keep to, the earlier first. -/
theorem solve_relates {R : Vec α → Vec α → Prop} (hrefl : ∀ x, P x → R x x)
    (hsteps : Admissible rule config problem.unknowns x0 →
      ∀ x, StepsKeep f rule attempts config (R x))
    {i j : Nat} (hij : i ≤ j) (hj : j ≤ session.views.size) :
    ∃ x y, reached x0 (session.views.toList.take i) = .ok x ∧
      reached x0 (session.views.toList.take j) = .ok y ∧ R x y := by
  by_cases hadmissible : Admissible rule config problem.unknowns x0
  · exact (solve_chronicle h hrun).relates (hkeep hadmissible) hrefl (hsteps hadmissible) hstart hij
      (by simpa using hj)
  · obtain ⟨hviews, -⟩ := views_of_not_admissible hrun hadmissible
    exact ⟨x0, x0, by simp [hviews], by simp [hviews], hrefl x0 hstart⟩

end Points

/-- Where plain Newton is served it is never refused a direction, and with valid parameters it
returns a solution. -/
theorem solve_newton_answers {problem : Objective σ α} (h : problem.Gives f)
    (hserves : Serves f .newton attempts config P)
    (hkeep : config.validate = .ok () → StepsKeep f .newton attempts config P)
    (hstart : x0.length = problem.unknowns → P x0) {o : σ}
    {result : Except (Stop α) (Solution α)} {session : Session σ α}
    (hrun : solve .newton attempts problem config x0 (.start o inherited) = (result, session)) :
    (∀ iteration, result ≠ .error (.error (.hessianNotPositiveDefinite iteration))) ∧
      (config.validate = .ok () → x0.length = problem.unknowns →
        ∃ solution, result = .ok solution) := by
  have hanswers (hadmissible : Admissible .newton config problem.unknowns x0) :
      ∃ solution, result = .ok solution :=
    solve_answers h hserves (hkeep hadmissible.config_valid) (hstart hadmissible.dimension)
      hadmissible hrun
  constructor
  · intro iteration hrefused
    by_cases hadmissible : Admissible .newton config problem.unknowns x0
    · obtain ⟨solution, hsolution⟩ := hanswers hadmissible
      cases hsolution.symm.trans hrefused
    · obtain ⟨-, error, hrejects, herror⟩ := views_of_not_admissible hrun hadmissible
      cases herror.symm.trans hrefused
      cases hrejects
  · intro hconfig hdimension
    exact hanswers (.newton hconfig hdimension)

end Downhill
