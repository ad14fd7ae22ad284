import Downhill.Descent
import Downhill.Proofs.Evaluation.Answers
import Downhill.Proofs.Evaluation.Computation

/-! # Runs over any objective

A run asks its objective for evaluations and does nothing else with it. So if every evaluation of
one objective mirrors that of another, then every solve over the one mirrors the solve over the
other: it shows the same views and ends in the same result, whatever was collected earlier. In
particular a solve over an objective whose answers do not depend on its state is the solve over the
objective that does nothing but keep the list of its evaluations.
-/

namespace Downhill

open Session

variable {σ τ α β : Type} {into : τ → σ}

/-! ## The line search -/

/-- Every evaluation of `problem` mirrors that of `image`. -/
structure Objective.Mirrored (into : τ → σ) (problem : Objective σ α) (image : Objective τ α) :
    Prop where
  unknowns : problem.unknowns = image.unknowns
  value : ∀ x, Mirrors into (problem.value x) (image.value x)
  gradient : ∀ x, Mirrors into (problem.gradient x) (image.gradient x)
  hessian : ∀ x, Mirrors into (problem.hessian x) (image.hessian x)

theorem Objective.Gives.mirrored {problem : Objective σ α} {f : Answers α} (h : problem.Gives f)
    (o : σ) : Mirrored (problem.replay o) problem f.traced where
  unknowns := h.unknowns
  value x calls :=
    Prod.ext (h.value x _) (problem.replay_append_singleton o calls (.value x)).symm
  gradient x calls :=
    Prod.ext (h.gradient x _) (problem.replay_append_singleton o calls (.gradient x)).symm
  hessian x calls :=
    Prod.ext (h.hessian x _) (problem.replay_append_singleton o calls (.hessian x)).symm

theorem mirrors_answer (answer : Except Fault β) :
    Mirrors into (Eval.pure answer) (Eval.pure answer) := fun _ => rfl

section Search

variable [Scalar α] {problem : Objective σ α} {image : Objective τ α}
  (h : problem.Mirrored into image) (config : SearchConfig α)

include h

theorem mirrors_shrink (x d : Vec α) (fx slope : α) (remaining shrinks : Nat) (t : α) :
    Mirrors into (LineSearch.shrink problem config x d fx slope remaining shrinks t)
      (LineSearch.shrink image config x d fx slope remaining shrinks t) := by
  induction remaining generalizing shrinks t with
  | zero =>
      unfold LineSearch.shrink
      refine (mirrors_answer _).bind fun trial => (h.value trial).bind fun ft => ?_
      exact .ite (.pure _) (.pure _)
  | succ remaining ih =>
      unfold LineSearch.shrink
      refine (mirrors_answer _).bind fun trial => (h.value trial).bind fun ft => ?_
      exact .ite (.pure _) (ih _ _)

theorem mirrors_backtracking (x d gradient : Vec α) :
    Mirrors into (LineSearch.backtracking problem x d gradient config)
      (LineSearch.backtracking image x d gradient config) := by
  refine (mirrors_answer _).bind fun slope => .ite (.pure _) ?_
  exact (h.value x).bind fun fx => mirrors_shrink h config x d fx slope _ _ _

end Search

/-! ## Sessions -/

namespace Session

/-- A session that goes on from `earlier`, where `later` was collected since then over other
states. -/
def onto (into : τ → σ) (earlier : Session σ α) (later : Session τ α) : Session σ α where
  objective := into later.objective
  carried := later.carried
  views := earlier.views ++ later.views
  log := earlier.log ++ later.log

/-- A session that goes on from `earlier`, where `later` was collected since then. -/
def resume (problem : Objective σ α) (earlier : Session σ α)
    (later : Session (List (Call α)) α) : Session σ α where
  objective := problem.replay earlier.objective later.objective
  carried := later.carried
  views := earlier.views ++ later.views
  log := earlier.log ++ later.log

theorem onto_replay (problem : Objective σ α) (earlier : Session σ α) :
    onto (problem.replay earlier.objective) earlier = earlier.resume problem := rfl

/-- Nothing has been collected, but a shift is carried. -/
def bare (carried : Option α) : Session (List (Call α)) α := ⟨[], carried, #[], #[]⟩

theorem resume_bare (problem : Objective σ α) (s : Session σ α) :
    s.resume problem (bare s.carried) = s := by
  simp [resume, bare]

end Session

section Steps

theorem evaluate_of_ok {evaluation : Eval σ β} {s : Session σ α} {b : β}
    (h : (evaluation s.objective).1 = .ok b) :
    evaluate evaluation s = (.ok b, { s with objective := (evaluation s.objective).2 }) := by
  unfold evaluate
  split <;> simp_all

@[simp] theorem settle_ok_apply (b : β) (s : Session σ α) :
    settle (.ok b) s = (.ok b, s) := rfl

@[simp] theorem settle_error_apply (fault : Fault) (s : Session σ α) :
    (settle (.error fault) : Solve σ α β) s = (.error (.fault fault), s) := rfl

theorem settle_ok {answer : Except Fault β} {s s' : Session σ α} {b : β}
    (h : settle answer s = (.ok b, s')) : answer = .ok b := by
  cases answer with
  | ok b =>
      cases h
      rfl
  | error fault => cases h

theorem report_apply (event : Event α) (s : Session σ α) :
    report event s = (.ok (), { s with log := s.log.push event }) := rfl

theorem reportAll_apply (events : List (Event α)) (s : Session σ α) :
    reportAll events s = (.ok (), { s with log := s.log ++ events }) := rfl

theorem present_apply (view : View α) (s : Session σ α) :
    present view s = (.ok (), { s with views := s.views.push view }) := rfl

theorem take_apply (stabilised : Stabilised α) (s : Session σ α) :
    take stabilised s = (stabilised.outcome,
      { s with carried := stabilised.carried, log := s.log ++ stabilised.events }) := by
  simp only [take, bind_apply]
  cases h : stabilised.outcome with
  | ok direction => rfl
  | error stop => rfl

variable (earlier : Session σ α)

theorem mirrors_evaluate {evaluation : Eval σ β} {trace : Eval τ β}
    (h : Mirrors into evaluation trace) :
    Mirrors (earlier.onto into) (evaluate evaluation) (evaluate trace) := by
  intro later
  have := h later.objective
  simp only [evaluate, onto]
  rw [this]
  cases trace later.objective with
  | mk outcome o => cases outcome <;> rfl

theorem mirrors_settle (answer : Except Fault β) :
    Mirrors (earlier.onto into) (settle answer) (settle answer) := by
  cases answer with
  | ok b => exact .pure b
  | error fault => exact .throw _

theorem mirrors_fail (error : SolverError α) :
    Mirrors (earlier.onto into) (fail error : Solve σ α β) (fail error) := .throw _

theorem mirrors_report (event : Event α) :
    Mirrors (earlier.onto into) (report event) (report event) := fun later => by
  simp [report_apply, onto, Array.push_append]

theorem mirrors_reportAll (events : List (Event α)) :
    Mirrors (earlier.onto into) (reportAll events) (reportAll events) := fun later => by
  have hlog : earlier.log ++ later.log ++ events = earlier.log ++ (later.log ++ events) :=
    Array.ext' (by simp)
  simp only [reportAll_apply, onto, hlog]

theorem mirrors_present (view : View α) :
    Mirrors (earlier.onto into) (present view) (present view) := fun later => by
  simp [present_apply, onto, Array.push_append]

theorem mirrors_take (stabilised : Stabilised α) :
    Mirrors (earlier.onto into) (take stabilised) (take stabilised) := fun later => by
  simp [take_apply, onto]

end Steps

/-! ## Solves -/

section Solves

variable [Scalar α] {problem : Objective σ α} {image : Objective τ α}
  (h : problem.Mirrored into image) (earlier : Session σ α)

section Mirrored

include h

theorem mirrors_look (x : Vec α) (state : Convergence α) :
    Mirrors (earlier.onto into) (Descent.look problem x state)
      (Descent.look image x state) := by
  refine (mirrors_evaluate earlier (h.gradient x)).bind fun gradient => ?_
  exact .ite (.pure _) (mirrors_fail earlier _)

theorem mirrors_judge (x : Vec α) (state : Convergence α) :
    Mirrors (earlier.onto into) (Descent.judge problem x state)
      (Descent.judge image x state) :=
  .ite (.pure _) ((mirrors_look h earlier x state).bind fun _ => .pure _)

variable [Kernel α] (rule : Rule α) (attempts : Nat)

theorem mirrors_direction (x gradient : Vec α) (iteration : Nat) :
    Mirrors (earlier.onto into) (rule.direction attempts problem x gradient iteration)
      (rule.direction attempts image x gradient iteration) := by
  cases rule with
  | steepest => exact .pure _
  | newton =>
      refine (mirrors_evaluate earlier (h.hessian x)).bind fun hessian => ?_
      refine (mirrors_settle earlier _).bind fun solver => ?_
      cases solver with
      | none => exact mirrors_fail earlier _
      | some solve => exact (mirrors_settle earlier _).bind fun _ => .pure _
  | stabilised stabiliser =>
      refine (mirrors_evaluate earlier (h.hessian x)).bind fun hessian => ?_
      exact fun later => mirrors_take earlier _ later

theorem mirrors_step (config : SearchConfig α) (x gradient : Vec α) (state : Convergence α) :
    Mirrors (earlier.onto into)
      (Descent.step rule attempts problem config x gradient state)
      (Descent.step rule attempts image config x gradient state) := by
  refine (mirrors_direction h earlier rule attempts x gradient _).bind fun direction => ?_
  refine (mirrors_evaluate earlier
    (mirrors_backtracking h config x direction.vector gradient)).bind fun outcome => ?_
  refine (mirrors_reportAll earlier _).bind fun _ => ?_
  refine (mirrors_report earlier _).bind fun _ => ?_
  exact (mirrors_present earlier _).bind fun _ => mirrors_settle earlier _

theorem mirrors_loop (config : SearchConfig α) (remaining : Nat) (x : Vec α)
    (state : Convergence α) :
    Mirrors (earlier.onto into)
      (Descent.loop rule attempts problem config remaining x state)
      (Descent.loop rule attempts image config remaining x state) := by
  induction remaining generalizing x state with
  | zero => exact .pure _
  | succ remaining ih =>
      refine (mirrors_look h earlier x state).bind fun looked => ?_
      refine .ite (.pure _) ?_
      exact (mirrors_step h earlier rule attempts config x _ _).bind fun next => ih next _

theorem mirrors_run (config : SolverConfig α) (x0 : Vec α) :
    Mirrors (earlier.onto into) (Descent.run rule attempts problem config x0)
      (Descent.run rule attempts image config x0) := by
  unfold Descent.run
  rw [h.unknowns]
  cases config.validate with
  | error reason => exact mirrors_fail earlier _
  | ok _ =>
      refine .ite (mirrors_fail earlier _) ?_
      refine (mirrors_report earlier _).bind fun _ => ?_
      refine (mirrors_report earlier _).bind fun _ => ?_
      refine (mirrors_loop h earlier rule attempts _ _ _ _).bind fun stopped => ?_
      refine (mirrors_judge h earlier _ _).bind fun state => ?_
      refine (mirrors_report earlier _).bind fun _ => ?_
      exact (mirrors_evaluate earlier (h.value _)).bind fun _ => .pure _

theorem mirrors_solve (config : SolverConfig α) (x0 : Vec α) :
    Mirrors (earlier.onto into) (solve rule attempts problem config x0)
      (solve rule attempts image config x0) := by
  refine Mirrors.bind ?_ fun _ => mirrors_run h earlier rule attempts config x0
  cases rule with
  | steepest => exact .pure _
  | newton => exact .pure _
  | stabilised stabiliser =>
      simp only [Rule.prepare]
      split
      · exact mirrors_report earlier _
      · exact mirrors_fail earlier _

end Mirrored

/-- A solve is the one that only keeps its evaluations, read over the objective at hand. -/
theorem solve_eq_resume [Kernel α] {f : Answers α} (h : problem.Gives f) (rule : Rule α)
    (attempts : Nat) (config : SolverConfig α) (x0 : Vec α) (s : Session σ α) :
    solve rule attempts problem config x0 s =
      ((solve rule attempts f.traced config x0 (bare s.carried)).1,
        s.resume problem (solve rule attempts f.traced config x0 (bare s.carried)).2) := by
  have hmirrors := mirrors_solve (h.mirrored s.objective) s rule attempts config x0 (bare s.carried)
  rwa [onto_replay, resume_bare] at hmirrors

end Solves

end Downhill
