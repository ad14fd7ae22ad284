import Downhill.Proofs.Run.Stages

/-! # Evaluations of a run

An iteration evaluates the gradient once, the Hessian at most once, and the values its line search
looks at. A result takes one more gradient and one more value; an error takes one more gradient and,
if a direction was refused, the Hessian that the rule had looked at.
-/

namespace Downhill

open Session Descent

variable {α : Type} [Scalar α] [Kernel α] {f : Answers α} {rule : Rule α} {attempts : Nat}

/-! ## The evaluations of an iteration -/

/-- The evaluations of the iteration that `view` shows. -/
def View.calls (f : Answers α) (rule : Rule α) (config : SearchConfig α) (view : View α) :
    List (Call α) :=
  .gradient view.x ::
    (rule.hessianCalls view.x ++ (f.search view.x view.direction view.gradient config).2)

/-- The session has made the evaluations of its views and then those in `later`. -/
def Session.Evaluated (f : Answers α) (rule : Rule α) (config : SearchConfig α)
    (s : Session (List (Call α)) α) (later : List (Call α)) : Prop :=
  s.objective = s.views.toList.flatMap (View.calls f rule config) ++ later

/-- What a run has evaluated when it stops with an error: the gradient at the point where it
stops has an answer, and a rule that refuses has looked at that point too. -/
inductive StopsEvaluated (f : Answers α) (rule : Rule α) (config : SearchConfig α)
    (s : Session (List (Call α)) α) : SolverError α → Prop
  | nonFinite {i : Nat} {x gradient : Vec α} : f.gradient x = .ok gradient →
      s.Evaluated f rule config [.gradient x] →
      StopsEvaluated f rule config s (.nonFiniteGradient i)
  | refused {i : Nat} {x gradient : Vec α} {error : SolverError α} : RefusesAt i error →
      f.gradient x = .ok gradient →
      s.Evaluated f rule config (.gradient x :: rule.hessianCalls x) →
      StopsEvaluated f rule config s error

namespace Descent

variable {config : SearchConfig α} {x gradient : Vec α} {state : Convergence α}
  {s : Session (List (Call α)) α}

omit [Kernel α] in
theorem look_evaluates (h : s.Evaluated f rule config []) :
    Ends (look f.traced x state) s
      (fun looked s' => f.gradient x = .ok looked.1 ∧ s'.Evaluated f rule config [.gradient x])
      (fun stop s' => ∀ error, stop = .error error → StopsEvaluated f rule config s' error) := by
  have hcalls : s.objective ++ [.gradient x] =
      s.views.toList.flatMap (View.calls f rule config) ++ [.gradient x] := by
    rw [h, List.append_nil]
  refine .bind (ends_evaluate (ends_gradient (fun gradient hgradient => ?_) fun _ _ => nofun))
  dsimp only
  split
  · exact Ends.pure ⟨hgradient, hcalls⟩
  · refine ends_fail fun error hstop => ?_
    cases hstop
    exact .nonFinite hgradient hcalls

theorem step_evaluates (hgradient : f.gradient x = .ok gradient)
    (h : s.Evaluated f rule config [.gradient x]) :
    Ends (step rule attempts f.traced config x gradient state) s
      (fun _ s' => s'.Evaluated f rule config [])
      (fun stop s' => ∀ error, stop = .error error → StopsEvaluated f rule config s' error) := by
  unfold Session.Evaluated at h
  refine .bind (direction_ends rfl (fun direction _ => ?_) fun stop hstop error herror => ?_)
  · refine .bind (ends_evaluate (LineSearch.search_ends (fun outcome _ => ?_) fun _ _ => nofun))
    refine .bind (ends_reportAll (.bind (ends_report (.bind (ends_present ?_)))))
    refine ends_settle (fun next _ => ?_) fun _ _ => nofun
    -- The view is what the evaluations of this iteration are filed under.
    simp [Session.Evaluated, View.calls, Rule.answer_objective, h]
  · rw [herror] at hstop
    refine .refused (Rule.answer_error hstop).1 hgradient ?_
    simp [Session.Evaluated, Rule.answer_objective, h]

omit [Kernel α] in
theorem conclude_evaluates (h : s.Evaluated f rule config [.gradient x]) :
    Ends (conclude f.traced x state) s
      (fun solution s' =>
        s'.Evaluated f rule config [.gradient solution.x, .value solution.x])
      (fun stop s' => ∀ error, stop = .error error → StopsEvaluated f rule config s' error) := by
  unfold Session.Evaluated at h
  refine .bind (ends_report (.bind (ends_evaluate (ends_value (fun value _ => ?_)
    fun _ _ => nofun))))
  refine Ends.pure ?_
  simp [Session.Evaluated, Convergence.solution, h]

theorem remainder_evaluates (n : Nat) (hpending : state.converged = false)
    (h : s.Evaluated f rule config []) :
    Ends (loop rule attempts f.traced config n x state >>= closing f.traced) s
      (fun solution s' =>
        s'.Evaluated f rule config [.gradient solution.x, .value solution.x])
      (fun stop s' => ∀ error, stop = .error error → StopsEvaluated f rule config s' error) := by
  induction n generalizing s x state with
  | zero =>
      rw [remainder_zero x hpending]
      refine .bind ((look_evaluates h).imp (fun looked s₁ hlooked => ?_) fun _ _ hstop => hstop)
      exact conclude_evaluates hlooked.2
  | succ n ih =>
      rw [remainder_succ]
      refine .bind ((look_evaluates h).imp (fun looked s₁ hlooked => ?_) fun _ _ hstop => hstop)
      split
      · exact conclude_evaluates hlooked.2
      · rename_i hconverged
        refine .bind ((step_evaluates hlooked.1 hlooked.2).imp (fun next s₂ hstep => ?_)
          fun _ _ hstop => hstop)
        exact ih (by simpa [Convergence.advance] using hconverged) hstep

end Descent

/-- Every evaluation of a solve belongs to an iteration, to the result or to the error. -/
theorem solve_evaluates {config : SolverConfig α} {x0 : Vec α} {inherited : Option α} :
    Ends (solve rule attempts f.traced config x0) (.start [] inherited)
      (fun solution s =>
        s.Evaluated f rule config.lineSearch [.gradient solution.x, .value solution.x])
      (fun stop s => ∀ error, stop = .error error →
        Rejects error ∨ StopsEvaluated f rule config.lineSearch s error) := by
  rw [solve_eq_stages]
  refine .bind ((opening_spec (.start [] inherited)).imp ?_ ?_)
  · rintro _ s ⟨-, log, rfl⟩
    have hstart : ({ start [] inherited with log } : Session (List (Call α)) α).Evaluated f rule
        config.lineSearch [] := rfl
    exact (remainder_evaluates _ rfl hstart).imp (fun _ _ h => h) fun _ _ h error hstop =>
      .inr (h error hstop)
  · rintro stop s ⟨-, error, log, hrejects, rfl, rfl⟩ error' hstop
    cases hstop
    exact .inl hrejects

end Downhill
