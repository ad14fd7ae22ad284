import Downhill.Proofs.Evaluation.Coupling
import Downhill.Proofs.Run.Stages

/-! # Renumbered runs

A rule that never looks at a carried shift does the same from a point on, whatever happened before;
only the numbers of the iterations differ.
-/

namespace Downhill

open Session

variable {σ α : Type}

/-! ## Later iterations -/

def View.later (k : Nat) (view : View α) : View α := { view with iteration := k + view.iteration }

def Solution.later (k : Nat) (solution : Solution α) : Solution α :=
  { solution with iterations := k + solution.iterations }

/-- The same error, that many iterations later. -/
def SolverError.later (k : Nat) : SolverError α → SolverError α
  | hessianNotPositiveDefinite i => hessianNotPositiveDefinite (k + i)
  | regularisationOverflow delta maxDelta i => regularisationOverflow delta maxDelta (k + i)
  | nonFiniteGradient i => nonFiniteGradient (k + i)
  | dimensionMismatch unknowns coordinates => dimensionMismatch unknowns coordinates
  | invalidConfig reason => invalidConfig reason

def Stop.later (k : Nat) : Stop α → Stop α
  | error reason => error (reason.later k)
  | fault reason => fault reason

/-- A result that is reached that many iterations later. -/
def laterResult (k : Nat) :
    Except (Stop α) (Solution α) → Except (Stop α) (Solution α)
  | .ok solution => .ok (solution.later k)
  | .error stop => .error (stop.later k)

/-- The bookkeeping of a run that is `k` iterations ahead, at the same point. -/
structure Convergence.Ahead (k : Nat) (state early : Convergence α) : Prop where
  iteration_eq : state.iteration = k + early.iteration
  threshold_eq : state.threshold = early.threshold
  converged_eq : state.converged = early.converged
  norm_eq : early.converged = true → state.gradientNormSq = early.gradientNormSq

theorem Convergence.Ahead.advance {k : Nat} {state early : Convergence α}
    (h : state.Ahead k early) : state.advance.Ahead k early.advance :=
  ⟨congrArg (· + 1) h.iteration_eq, h.threshold_eq, h.converged_eq, h.norm_eq⟩

/-- The same evaluations were made, and the same views shown under later numbers. -/
structure Session.Ahead (k : Nat) (s early : Session σ α) : Prop where
  objective_eq : s.objective = early.objective
  views_eq : s.views = early.views.map (View.later k)

/-- `stop` is what `early` is, that many iterations later. -/
def StopsLater (k : Nat) (stop early : Stop α) : Prop := stop = early.later k

/-! ## Rules without memory -/

/-- The rule never looks at a carried shift. -/
inductive Rule.Memoryless : Rule α → Prop
  | steepest : Memoryless .steepest
  | newton : Memoryless .newton
  | eigenvalueFloor (floor : α) : Memoryless (.stabilised (.eigenvalueFloor floor))
  | diagonalShift (config : ShiftConfig α) : config.schedule = .resetEachIteration →
      Memoryless (.stabilised (.diagonalShift config))

variable [Scalar α]

/-! ### Stabilisers -/

namespace Stabiliser

variable {attempts iteration k : Nat} {hessian : Matrix α} {gradient : Vec α}

theorem newton_later (solve : Vec α → Except Fault (Vec α)) (regularisation : α) :
    newton solve gradient regularisation =
      (newton solve gradient regularisation).mapError (Stop.later k) := by
  unfold newton
  split <;> rfl

theorem solution_later (solve : Vec α → Vec α) (n : Nat) (regularisation : α) :
    solution solve n gradient regularisation =
      (solution solve n gradient regularisation).mapError (Stop.later k) := by
  unfold solution
  split <;> rfl

variable [Kernel α]

theorem ShiftsTo.later {config : ShiftConfig α} {carried : Option α} {ended : Stabilised α}
    (h : ShiftsTo config attempts carried hessian gradient iteration ended) :
    ∃ events, ShiftsTo config attempts carried hessian gradient (k + iteration)
      ⟨ended.outcome.mapError (Stop.later k), ended.carried, events⟩ := by
  cases h with
  | unshifted hfactor =>
      dsimp only
      rw [← solution_later]
      exact ⟨_, .unshifted hfactor⟩
  | shifted hnone hattempts hrefused hbelow hfactor =>
      dsimp only
      rw [← solution_later]
      exact ⟨_, .shifted hnone hattempts hrefused hbelow hfactor⟩
  | overflow hnone hattempts hrefused habove =>
      exact ⟨_, .overflow hnone hattempts hrefused habove⟩
  | unsettled hnone hrefused => exact ⟨_, .unsettled hnone hrefused⟩

theorem shiftDirection_later {config : ShiftConfig α} (h : config.schedule = .resetEachIteration)
    (carried early : Option α) :
    (shiftDirection config attempts carried hessian gradient (k + iteration)).outcome =
      (shiftDirection config attempts early hessian gradient iteration).outcome.mapError
        (Stop.later k) := by
  rw [outcome_of_reset h attempts carried early]
  by_cases hsquare : hessian.isSquare = true
  · obtain ⟨events, hlater⟩ :=
      (shiftDirection_shiftsTo hsquare config attempts early gradient iteration).later
    rw [hlater.eq hsquare]
  · rw [shiftDirection_of_not_square hsquare, shiftDirection_of_not_square hsquare]
    rfl

theorem FloorsTo.later {floor : α} {ended : Except (Stop α) (Direction α) × Array (Event α)}
    (h : FloorsTo floor hessian gradient iteration ended) :
    ∃ events, FloorsTo floor hessian gradient (k + iteration)
      (ended.1.mapError (Stop.later k), events) := by
  cases h with
  | broken hprojection => exact ⟨_, .broken hprojection⟩
  | misshapen hprojection hsolver => exact ⟨_, .misshapen hprojection hsolver⟩
  | refused hprojection hsolver => exact ⟨_, .refused hprojection hsolver⟩
  | solved hprojection hsolver =>
      dsimp only
      rw [← newton_later]
      exact ⟨_, .solved hprojection hsolver⟩

theorem floorDirection_later (floor : α) :
    (floorDirection floor hessian gradient (k + iteration)).1 =
      (floorDirection floor hessian gradient iteration).1.mapError (Stop.later k) := by
  obtain ⟨events, hlater⟩ := (floorDirection_floorsTo floor hessian gradient iteration).later
  rw [hlater.eq]

end Stabiliser

/-! ### Directions -/

section Steps

variable {k : Nat} {β : Type}

omit [Scalar α] in
theorem couples_evaluate (evaluation : Eval σ β) :
    Couples (Session.Ahead k) Eq (StopsLater k) (evaluate evaluation : Solve σ α β)
      (evaluate evaluation) := by
  intro s t h
  unfold evaluate
  rw [h.objective_eq]
  cases evaluation t.objective with
  | mk outcome o =>
      cases outcome with
      | ok b => exact .ok rfl ⟨rfl, h.views_eq⟩
      | error fault => exact .error rfl ⟨rfl, h.views_eq⟩

omit [Scalar α] in
theorem couples_settle (answer : Except Fault β) :
    Couples (Session.Ahead k) Eq (StopsLater k) (settle answer : Solve σ α β)
      (settle answer) := by
  cases answer with
  | ok b => exact .pure rfl
  | error fault => exact .throw rfl

omit [Scalar α] in
theorem couples_fail {answers : β → β → Prop} {error early : SolverError α}
    (h : error = early.later k) :
    Couples (Session.Ahead k) answers (StopsLater k) (fail error : Solve σ α β) (fail early) :=
  .throw (congrArg Stop.error h)

omit [Scalar α] in
theorem couples_report (event early : Event α) :
    Couples (Session.Ahead k) Eq (StopsLater k) (report event : Solve σ α Unit)
      (report early) := fun _ _ h => .ok rfl ⟨h.objective_eq, h.views_eq⟩

omit [Scalar α] in
theorem couples_reportAll (events early : List (Event α)) :
    Couples (Session.Ahead k) Eq (StopsLater k) (reportAll events : Solve σ α Unit)
      (reportAll early) := fun _ _ h => .ok rfl ⟨h.objective_eq, h.views_eq⟩

omit [Scalar α] in
theorem couples_present {view early : View α} (hview : view = early.later k) :
    Couples (Session.Ahead k) Eq (StopsLater k) (present view : Solve σ α Unit)
      (present early) := by
  intro s t h
  refine .ok rfl ⟨h.objective_eq, ?_⟩
  simp [h.views_eq, hview]

omit [Scalar α] in
theorem couples_take {stabilised early : Stabilised α}
    (h : stabilised.outcome = early.outcome.mapError (Stop.later k)) :
    Couples (Session.Ahead k) Eq (StopsLater k) (take stabilised : Solve σ α (Direction α))
      (take early) := by
  intro s t hst
  rw [take_apply, take_apply, h]
  cases early.outcome with
  | ok d => exact .ok rfl ⟨hst.objective_eq, hst.views_eq⟩
  | error stop => exact .error rfl ⟨hst.objective_eq, hst.views_eq⟩

end Steps

/-! ## Runs -/

variable [Kernel α] {k attempts : Nat} {problem : Objective σ α}

theorem couples_direction {rule : Rule α} (hrule : rule.Memoryless) (x gradient : Vec α)
    (iteration : Nat) :
    Couples (Session.Ahead k) Eq (StopsLater k)
      (rule.direction attempts problem x gradient (k + iteration))
      (rule.direction attempts problem x gradient iteration) := by
  have hstabilised (stabiliser : Stabiliser α)
      (h : ∀ hessian carried early,
        (stabiliser.direction attempts carried hessian gradient (k + iteration)).outcome =
          (stabiliser.direction attempts early hessian gradient iteration).outcome.mapError
            (Stop.later k)) :
      Couples (Session.Ahead k) Eq (StopsLater k)
        ((Rule.stabilised stabiliser).direction attempts problem x gradient (k + iteration))
        ((Rule.stabilised stabiliser).direction attempts problem x gradient iteration) := by
    refine (couples_evaluate (problem.hessian x)).bind ?_
    rintro hessian _ rfl s t hst
    exact couples_take (h hessian s.carried t.carried) s t hst
  cases hrule with
  | steepest => exact .pure rfl
  | newton =>
      refine (couples_evaluate (problem.hessian x)).bind ?_
      rintro hessian _ rfl
      refine (couples_settle hessian.solver?).bind ?_
      rintro solver _ rfl
      cases solver with
      | none => exact couples_fail rfl
      | some solve =>
          refine (couples_settle (solve gradient.neg)).bind ?_
          rintro vector _ rfl
          exact .pure rfl
  | eigenvalueFloor floor =>
      exact hstabilised _ fun _ _ _ => Stabiliser.floorDirection_later floor
  | diagonalShift config hreset =>
      exact hstabilised _ fun _ carried early =>
        Stabiliser.shiftDirection_later hreset carried early

namespace Descent

omit [Kernel α] in
theorem couples_look (x : Vec α) {state early : Convergence α} (h : state.Ahead k early) :
    Couples (Session.Ahead k)
      (fun looked lookedEarly => looked.1 = lookedEarly.1 ∧ looked.2.Ahead k lookedEarly.2 ∧
        looked.2.gradientNormSq = lookedEarly.2.gradientNormSq)
      (StopsLater k) (look problem x state) (look problem x early) := by
  refine (couples_evaluate (problem.gradient x)).bind ?_
  rintro gradient _ rfl
  refine .ite (.pure ⟨rfl, ⟨h.iteration_eq, h.threshold_eq, ?_, fun _ => rfl⟩, rfl⟩)
    (couples_fail ?_)
  · simp only [Convergence.observe, h.threshold_eq]
  · rw [h.iteration_eq]
    rfl

theorem couples_step {rule : Rule α} (hrule : rule.Memoryless) (config : SearchConfig α)
    (x gradient : Vec α) {state early : Convergence α} (h : state.Ahead k early) :
    Couples (Session.Ahead k) Eq (StopsLater k)
      (step rule attempts problem config x gradient state)
      (step rule attempts problem config x gradient early) := by
  unfold step
  rw [h.iteration_eq]
  refine (couples_direction hrule x gradient early.iteration).bind ?_
  rintro direction _ rfl
  refine (couples_evaluate _).bind ?_
  rintro outcome _ rfl
  refine (couples_reportAll _ _).bind fun _ _ _ => (couples_report _ _).bind fun _ _ _ => ?_
  refine (couples_present ?_).bind fun _ _ _ => couples_settle _
  rfl

theorem couples_loop {rule : Rule α} (hrule : rule.Memoryless) (config : SearchConfig α) (n : Nat)
    (x : Vec α) {state early : Convergence α} (h : state.Ahead k early) :
    Couples (Session.Ahead k)
      (fun halted haltedEarly => halted.1 = haltedEarly.1 ∧ halted.2.Ahead k haltedEarly.2)
      (StopsLater k) (loop rule attempts problem config n x state)
      (loop rule attempts problem config n x early) := by
  induction n generalizing x state early with
  | zero => exact .pure ⟨rfl, h⟩
  | succ n ih =>
      refine (couples_look x h).bind ?_
      rintro ⟨gradient, looked⟩ ⟨_, lookedEarly⟩ ⟨rfl, hahead, -⟩
      dsimp only at hahead ⊢
      rw [hahead.converged_eq]
      refine .ite (.pure ⟨rfl, hahead⟩) ?_
      refine (couples_step hrule config x gradient hahead).bind ?_
      rintro next _ rfl
      exact ih next hahead.advance

omit [Scalar α] [Kernel α] in
theorem couples_conclude (x : Vec α) {state early : Convergence α} (h : state.Ahead k early)
    (hnorm : state.gradientNormSq = early.gradientNormSq) :
    Couples (Session.Ahead k) (fun solution first => solution = first.later k) (StopsLater k)
      (conclude problem x state) (conclude problem x early) := by
  refine (couples_report _ _).bind fun _ _ _ => (couples_evaluate _).bind ?_
  rintro value _ rfl
  refine .pure ?_
  simp [Convergence.solution, Solution.later, h.iteration_eq, h.converged_eq, hnorm]

omit [Kernel α] in
theorem couples_closing (x : Vec α) {state early : Convergence α} (h : state.Ahead k early) :
    Couples (Session.Ahead k) (fun solution first => solution = first.later k) (StopsLater k)
      (closing problem (x, state)) (closing problem (x, early)) := by
  cases hconverged : early.converged with
  | true =>
      rw [closing_of_converged problem x hconverged,
        closing_of_converged problem x (h.converged_eq.trans hconverged)]
      exact couples_conclude x h (h.norm_eq hconverged)
  | false =>
      rw [closing_of_pending problem x hconverged,
        closing_of_pending problem x (h.converged_eq.trans hconverged)]
      refine (couples_look x h).bind ?_
      rintro looked lookedEarly ⟨-, hahead, hnorm⟩
      exact couples_conclude x hahead hnorm

/-- From the same point on, a run that is some iterations ahead does the same. -/
theorem couples_remainder {rule : Rule α} (hrule : rule.Memoryless) (config : SearchConfig α)
    (n : Nat) (x : Vec α) {state early : Convergence α} (h : state.Ahead k early) :
    Couples (Session.Ahead k) (fun solution first => solution = first.later k) (StopsLater k)
      (loop rule attempts problem config n x state >>= closing problem)
      (loop rule attempts problem config n x early >>= closing problem) := by
  refine (couples_loop hrule config n x h).bind ?_
  rintro ⟨x, halted⟩ ⟨_, haltedEarly⟩ ⟨rfl, hahead⟩
  exact couples_closing x hahead

end Descent

end Downhill
