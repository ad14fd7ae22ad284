import Downhill.Proofs.Run.Outcome

/-! # Views account for the result

The views of a solve are its trajectory, however it ends. A solution lies where the last view leads
to; an error names the number of views, and it arose at the point they lead to.
-/

namespace Downhill

open Session

variable {σ α : Type} [Scalar α]

/-- The views are the iterations in order, each as the answers of `problem` have it. -/
structure Transcript (problem : Objective σ α) (f : Answers α) (config : SolverConfig α)
    (x0 : Vec α) (views : List (View α)) : Prop where
  numbered : ∀ i (view : View α), views[i]? = some view → view.iteration = i
  first : ∀ view : View α, views[0]? = some view → view.x = x0
  next : ∀ i (view next : View α), views[i]? = some view → views[i + 1]? = some next →
    view.x.move view.step view.direction = .ok next.x
  gradient_eq : ∀ view ∈ views, f.gradient view.x = .ok view.gradient
  searched : ∀ view ∈ views, ∀ o, ∃ outcome,
    (LineSearch.backtracking problem view.x view.direction view.gradient config.lineSearch o).1 =
      .ok outcome ∧ outcome.step = view.step ∧ outcome.status = view.status

variable [Kernel α]

/-- After `iteration` views no direction is found, and `error` says why. -/
structure RefusedAfter (f : Answers α) (rule : Rule α) (attempts : Nat) (config : SolverConfig α)
    (x0 : Vec α) (inherited : Option α) (views : List (View α)) (iteration : Nat)
    (error : SolverError α) : Prop where
  count : views.length = iteration
  refused : ∃ x gradient, reached x0 views = .ok x ∧ Unsettled f config.threshold x gradient ∧
    (rule.answer attempts f (carriedAfter f rule attempts inherited views) x gradient iteration).1 =
      .error (.error error)

/-- What the views left in `session` have to do with a result, when the objective's state was `o`
at the start. An objective may keep its evaluations in its state; that the state is `o` still says
that there were none. -/
def Accounts (f : Answers α) (rule : Rule α) (attempts : Nat) (config : SolverConfig α)
    (x0 : Vec α) (inherited : Option α) (o : σ) (session : Session σ α) :
    Except (Stop α) (Solution α) → Prop
  | .ok solution =>
      session.views.size = solution.iterations ∧ reached x0 session.views.toList = .ok solution.x
  | .error (.error (.nonFiniteGradient i)) =>
      session.views.size = i ∧ ∃ x gradient, reached x0 session.views.toList = .ok x ∧
        f.gradient x = .ok gradient ∧ Scalar.isFinite gradient.normSq = false
  | .error (.error (.hessianNotPositiveDefinite i)) =>
      RefusedAfter f rule attempts config x0 inherited session.views.toList i
        (.hessianNotPositiveDefinite i)
  | .error (.error (.regularisationOverflow delta maxDelta i)) =>
      RefusedAfter f rule attempts config x0 inherited session.views.toList i
        (.regularisationOverflow delta maxDelta i)
  | .error (.error (.dimensionMismatch _ _)) => session.views = #[] ∧ session.objective = o
  | .error (.error (.invalidConfig _)) => session.views = #[] ∧ session.objective = o
  | .error (.fault _) => True

variable {rule : Rule α} {attempts : Nat} {config : SolverConfig α} {x0 : Vec α}
  {inherited : Option α} {f : Answers α}

theorem Chronicle.transcript {problem : Objective σ α} {views : List (View α)}
    (h : Chronicle f rule attempts config x0 inherited views) (hgives : problem.Gives f) :
    Transcript problem f config x0 views := by
  refine ⟨h.numbered, fun view hview => ?_, fun _ _ _ hview hnext => h.moves hview hnext,
    fun view hview => ?_, fun view hview o => ?_⟩
  · simpa using (h.stands 0 view hview).symm
  · obtain ⟨i, hi⟩ := List.getElem?_of_mem hview
    exact (h.shown i view hi).unsettled.gradient_eq
  · obtain ⟨i, hi⟩ := List.getElem?_of_mem hview
    obtain ⟨outcome, hsearch, hstep, hstatus⟩ := (h.shown i view hi).searched
    exact ⟨outcome, by rw [backtracking_eq_search hgives, hsearch], hstep, hstatus⟩

theorem Failed.not_rejects {s : Session (List (Call α)) α} {error : SolverError α}
    (h : Failed f rule attempts config x0 inherited s (.error error)) : ¬ Rejects error := by
  cases h with
  | nonFinite _ _ _ => nofun
  | refused _ _ hanswer =>
      rcases (Rule.answer_error hanswer).1 with rfl | ⟨_, _, rfl⟩ <;> nofun

theorem Failed.accounts {s : Session (List (Call α)) α} {stop : Stop α}
    (h : Failed f rule attempts config x0 inherited s stop) (o : σ) (session : Session σ α)
    (hviews : session.views = s.views) :
    Accounts f rule attempts config x0 inherited o session (.error stop) := by
  cases h with
  | nonFinite hat hgradient hinfinite =>
      refine ⟨by rw [hviews], _, _, ?_, hgradient, hinfinite⟩
      rw [hviews]
      exact hat.arrived
  | refused hat hunsettled hanswer =>
      have hrefused : ∀ error : SolverError α, _ → RefusedAfter f rule attempts config x0 inherited
          session.views.toList s.views.size error := fun error hanswer =>
        ⟨by simp [hviews], _, _, by rw [hviews]; exact hat.arrived, hunsettled,
          by rw [hviews, ← hat.carried_eq]; exact hanswer⟩
      rcases (Rule.answer_error hanswer).1 with rfl | ⟨_, _, rfl⟩
      · exact hrefused _ hanswer
      · exact hrefused _ hanswer
  | fault _ => trivial

/-- However a solve ends, its views are its trajectory and account for the result; parameters that
are refused, and only they, make it end before the first evaluation. -/
theorem solve_accounted {problem : Objective σ α} (h : problem.Gives f) {o : σ}
    {result : Except (Stop α) (Solution α)} {session : Session σ α}
    (hrun : solve rule attempts problem config x0 (.start o inherited) = (result, session)) :
    Transcript problem f config x0 session.views.toList ∧
      Accounts f rule attempts config x0 inherited o session result ∧
      (¬ Admissible rule config problem.unknowns x0 ↔
        ∃ error, Rejects error ∧ result = .error (.error error)) := by
  refine ⟨(solve_chronicle h hrun).transcript h, ?_⟩
  by_cases hstart : Admissible rule config problem.unknowns x0
  · cases result with
    | ok solution =>
        obtain ⟨calls, -, hfinished⟩ := solve_finished h hrun
        exact ⟨⟨hfinished.iterations_eq.symm, hfinished.arrived⟩,
          iff_of_false (not_not_intro hstart) (by simp)⟩
    | error stop =>
        obtain ⟨calls, -, hfailed⟩ := solve_failed h hstart hrun
        refine ⟨hfailed.accounts o session rfl, iff_of_false (not_not_intro hstart) ?_⟩
        rintro ⟨error, hrejects, herror⟩
        cases herror
        exact hfailed.not_rejects hrejects
  · obtain ⟨error, log, hrejects, hstop⟩ :=
      solve_of_not_admissible attempts hstart (.start o inherited)
    rw [hstop] at hrun
    cases hrun
    refine ⟨?_, iff_of_true hstart ⟨error, hrejects, rfl⟩⟩
    cases hrejects with
    | config reason => exact ⟨rfl, rfl⟩
    | dimension unknowns coordinates => exact ⟨rfl, rfl⟩

/-- Newton's method leaves the convex region of the saddle by a long step: one view leads to the
point whose Hessian is refused. -/
theorem saddle_accounted :
    ∃ session,
      solve .newton 100 ((Problem.saddle .default).objective Unit)
        ⟨1e-4, 10, ⟨3.0, 0.01, 0.75, 1000⟩⟩ [0.0, 1.5] (.start ()) =
          (.error (.error (.hessianNotPositiveDefinite 1)), session) ∧
      RefusedAfter (Problem.saddle (.default : Saddle Float)).answers .newton 100
        ⟨1e-4, 10, ⟨3.0, 0.01, 0.75, 1000⟩⟩ [0.0, 1.5] none session.views.toList 1
        (.hessianNotPositiveDefinite 1) := by
  obtain ⟨session, hrun, -⟩ := exists_of_stopsWith
    (solve .newton 100 ((Problem.saddle .default).objective Unit)
      ⟨1e-4, 10, ⟨3.0, 0.01, 0.75, 1000⟩⟩ [0.0, 1.5])
    (.start ()) (.error (.hessianNotPositiveDefinite 1)) (fun _ => true) (by decide +kernel)
  exact ⟨session, hrun, (solve_accounted (Problem.objective_gives _) hrun).2.1⟩

end Downhill
