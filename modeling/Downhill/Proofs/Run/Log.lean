import Mathlib
import Downhill.Proofs.Run.Stages
import Downhill.Proofs.Search.FirstShift
import Downhill.Proofs.Search.StepLength

/-! # The log of a solve

A solve announces itself, reports every iteration, and closes with a verdict if it has a solution.
In an iteration the rule reports first: the shifts that it refused, or the eigenvalues that it
raised. Then the line search warns unless it accepted a step, and a summary of the view comes last.
Of an iteration that ends in an error, only the reports of the rule are left.
-/

namespace Downhill

open Session

variable {σ α : Type}

variable [Scalar α]

/-! ## Announcement and verdict -/

/-- A stabiliser is named first of all. -/
def Rule.selection : Rule α → List (Event α)
  | .steepest => []
  | .newton => []
  | .stabilised stabiliser => [.stabiliserSelected stabiliser.name]

/-- What a solve reports before its first iteration. -/
def Rule.announcement (rule : Rule α) (unknowns : Nat) : List (Event α) :=
  rule.selection ++ [.solveStarted rule.name unknowns, .banner rule.name]

/-- What a solve reports last. -/
def Solution.verdict (solution : Solution α) : Event α :=
  if solution.converged then .converged solution.iterations solution.gradientNormSq
  else .capReached solution.iterations solution.gradientNormSq

omit [Scalar α] in
theorem Solution.level_verdict (solution : Solution α) :
    solution.verdict.level = if solution.converged then .info else .warn := by
  unfold verdict
  split <;> rfl

/-! ## Warnings and summaries -/

/-- What is warned of after a search with so many shrinks: nothing if the step of the view was
accepted. -/
inductive View.Warns (view : View α) (shrinks : Nat) : List (Event α) → Prop
  | accepted : view.status = .accepted → view.Warns shrinks []
  | notDescent {slope : α} : view.status = .notDescent → view.slope = .ok slope →
      view.Warns shrinks [.notDescent slope]
  | shrinkLimit : view.status = .shrinkLimit →
      view.Warns shrinks [.shrinkLimit view.step shrinks]

/-- The summary of an iteration. -/
def View.summary (view : View α) (shrinks : Nat) : Event α :=
  .iteration view.iteration view.gradient.normSq view.step shrinks view.regularisation

theorem SearchOutcome.warns {outcome : SearchOutcome α} {view : View α}
    (hstep : view.step = outcome.step) (hstatus : view.status = outcome.status)
    (hslope : view.slope = .ok outcome.slope) :
    view.Warns outcome.shrinks outcome.warnings := by
  unfold warnings
  split
  · rename_i haccepted
    exact .accepted (hstatus.trans haccepted)
  · rename_i hrises
    exact .notDescent (hstatus.trans hrises) hslope
  · rename_i hlimit
    rw [← hstep]
    exact .shrinkLimit (hstatus.trans hlimit)

/-! ## Reports of a rule -/

variable [Kernel α]

/-- What a rule makes of a point, its gradient and the shift carried so far, with the objective in
the state `o`: an outcome, a shift to carry on, the reports on the way, and the state after that. -/
inductive Rule.Decides (attempts : Nat) (problem : Objective σ α) (x gradient : Vec α)
    (iteration : Nat) (carried : Option α) (o : σ) : Rule α → Stabilised α → σ → Prop
  | steepest : Decides attempts problem x gradient iteration carried o .steepest
      ⟨.ok ⟨gradient.neg, 0.0⟩, carried, #[]⟩ o
  | newton {hessian : Matrix α} {o' : σ} : problem.hessian x o = (.ok hessian, o') →
      Decides attempts problem x gradient iteration carried o .newton
        ⟨newtonOutcome hessian gradient iteration, carried, #[]⟩ o'
  /-- The shifts that were refused are reported, in order. -/
  | shift {config : ShiftConfig α} {hessian : Matrix α} {decided : Stabilised α} {o' : σ} :
      problem.hessian x o = (.ok hessian, o') →
      Stabiliser.ShiftsTo config attempts carried hessian gradient iteration decided →
      Decides attempts problem x gradient iteration carried o
        (.stabilised (.diagonalShift config)) decided o'
  /-- If eigenvalues were raised to the floor, that is reported. -/
  | floor {floor : α} {hessian : Matrix α} {o' : σ}
      {ended : Except (Stop α) (Direction α) × Array (Event α)} :
      problem.hessian x o = (.ok hessian, o') →
      Stabiliser.FloorsTo floor hessian gradient iteration ended →
      Decides attempts problem x gradient iteration carried o
        (.stabilised (.eigenvalueFloor floor)) ⟨ended.1, carried, ended.2⟩ o'

section Reports

variable {rule : Rule α} {attempts iteration : Nat} {problem : Objective σ α} {x gradient : Vec α}
  {carried : Option α} {decided : Stabilised α} {o o' : σ}

omit [Kernel α] in
theorem Stabiliser.level_of_mem_rejections {config : ShiftConfig α} {k : Nat} {event : Event α}
    (h : event ∈ rejections config carried iteration k) : event.level = .trace := by
  simp only [rejections, List.mem_toArray, List.mem_map] at h
  obtain ⟨j, -, rfl⟩ := h
  rfl

omit [Scalar α] [Kernel α] in
theorem Stabiliser.level_of_mem_clampEvents {projection : Projection α} {event : Event α}
    (h : event ∈ clampEvents projection iteration) : event.level = .trace := by
  unfold clampEvents at h
  split at h
  · obtain rfl : event = _ := by simpa using h
    rfl
  · simp at h

/-- A rule reports in detail only. -/
theorem Rule.Decides.level
    (h : rule.Decides attempts problem x gradient iteration carried o decided o') :
    ∀ event ∈ decided.events, event.level = .trace := by
  intro event hevent
  cases h with
  | steepest => simp at hevent
  | newton => simp at hevent
  | shift _ hshifts =>
      cases hshifts with
      | unshifted => simp at hevent
      | shifted => exact Stabiliser.level_of_mem_rejections hevent
      | overflow => exact Stabiliser.level_of_mem_rejections hevent
      | unsettled => exact Stabiliser.level_of_mem_rejections hevent
  | floor _ hfloors =>
      cases hfloors with
      | broken => simp at hevent
      | misshapen => exact Stabiliser.level_of_mem_clampEvents hevent
      | refused => exact Stabiliser.level_of_mem_clampEvents hevent
      | solved => exact Stabiliser.level_of_mem_clampEvents hevent

/-- A stabiliser that does not break down decides. -/
theorem Stabiliser.decides {stabiliser : Stabiliser α} {hessian : Matrix α}
    (hhessian : problem.hessian x o = (.ok hessian, o'))
    (hsound : ∀ fault, (stabiliser.direction attempts carried hessian gradient iteration).outcome ≠
      .error (.fault fault)) :
    (Rule.stabilised stabiliser).Decides attempts problem x gradient iteration carried o
      (stabiliser.direction attempts carried hessian gradient iteration) o' := by
  cases stabiliser with
  | diagonalShift config =>
      by_cases hsquare : hessian.isSquare = true
      · exact .shift hhessian
          (shiftDirection_shiftsTo hsquare config attempts carried gradient iteration)
      · refine absurd ?_ (hsound .sizes)
        rw [direction, shiftDirection_of_not_square hsquare]
  | eigenvalueFloor floor =>
      exact .floor hhessian (floorDirection_floorsTo floor hessian gradient iteration)

/-- What `decided` leaves behind has been added to the session. -/
structure Session.Took (s : Session σ α) (decided : Stabilised α) (s' : Session σ α) : Prop where
  views_eq : s'.views = s.views
  carried_eq : s'.carried = decided.carried
  log_eq : s'.log = s.log ++ decided.events

omit [Scalar α] [Kernel α] in
theorem Session.took_nothing (s : Session σ α) (outcome : Except (Stop α) (Direction α)) (o : σ) :
    s.Took ⟨outcome, s.carried, #[]⟩ { s with objective := o } := ⟨rfl, rfl, by simp⟩

theorem Descent.direction_decides (rule : Rule α) (attempts : Nat) (problem : Objective σ α)
    (x gradient : Vec α) (iteration : Nat) (s : Session σ α) :
    Ends (rule.direction attempts problem x gradient iteration) s
      (fun d s' => ∃ decided,
        rule.Decides attempts problem x gradient iteration s.carried s.objective decided
            s'.objective ∧
          decided.outcome = .ok d ∧ s.Took decided s')
      (fun stop s' => ∀ error, stop = .error error → ∃ decided,
        rule.Decides attempts problem x gradient iteration s.carried s.objective decided
            s'.objective ∧
          decided.outcome = .error (.error error) ∧ s.Took decided s') := by
  cases rule with
  | steepest => exact .pure ⟨_, .steepest, rfl, s.took_nothing _ s.objective⟩
  | newton =>
      refine .bind (ends_evaluation (fun hessian o hhessian => ?_) fun _ _ _ => nofun)
      refine .bind (ends_settle (fun solver hsolver => ?_) fun _ _ => nofun)
      cases solver with
      | none =>
          refine ends_fail fun error herror => ⟨_, .newton hhessian, ?_, s.took_nothing _ o⟩
          cases herror
          simp only [Rule.newtonOutcome, hsolver]
      | some solve =>
          refine .bind (ends_settle (fun vector hvector => ?_) fun _ _ => nofun)
          refine .pure ⟨_, .newton hhessian, ?_, s.took_nothing _ o⟩
          simp only [Rule.newtonOutcome, hsolver, Stabiliser.newton, hvector]
  | stabilised stabiliser =>
      refine .bind (ends_evaluation (fun hessian o hhessian => ?_) fun _ _ _ => nofun)
      refine ends_take (fun d hd => ?_) fun stop hstop error herror => ?_
      · exact ⟨_, Stabiliser.decides hhessian (by simp [hd]), hd, rfl, rfl, rfl⟩
      · subst herror
        exact ⟨_, Stabiliser.decides hhessian (by simp [hstop]), hstop, rfl, rfl, rfl⟩

end Reports

/-! ## The log of the iterations -/

/-- The log of the iterations behind some views, from the first on, the shift that is carried after
them, and the state of the objective. They begin at `x0` in the state `o`, with the inherited
shift. -/
inductive Narrates (rule : Rule α) (attempts : Nat) (problem : Objective σ α)
    (config : SearchConfig α) (x0 : Vec α) (inherited : Option α) (o : σ) :
    List (View α) → List (Event α) → Option α → σ → Prop
  | nil : Narrates rule attempts problem config x0 inherited o [] [] inherited o
  /-- In the next iteration the rule reports what it tried, the line search warns if it has to, and
  a summary follows. Each evaluation finds the objective as the one before has left it. -/
  | snoc {views : List (View α)} {entries warnings : List (Event α)} {carried : Option α}
      {view : View α} {decided : Stabilised α} {shrinks : Nat} {slope : α} {o₀ o₁ o₂ o₃ : σ} :
      Narrates rule attempts problem config x0 inherited o views entries carried o₀ →
      view.iteration = views.length →
      reached x0 views = .ok view.x →
      problem.gradient view.x o₀ = (.ok view.gradient, o₁) →
      rule.Decides attempts problem view.x view.gradient view.iteration carried o₁ decided o₂ →
      decided.outcome = .ok ⟨view.direction, view.regularisation⟩ →
      (∀ event ∈ decided.events, event.level = .trace) →
      LineSearch.backtracking problem view.x view.direction view.gradient config o₂ =
        (.ok ⟨view.step, view.status, shrinks, slope⟩, o₃) →
      view.Warns shrinks warnings →
      Narrates rule attempts problem config x0 inherited o (views ++ [view])
        (entries ++ decided.events.toList ++ warnings ++ [view.summary shrinks]) decided.carried o₃

/-- What is left in the log of an iteration that ends in an error, and the state it leaves: nothing
is reported if the gradient is not finite, and if the rule finds no direction, its reports are. -/
inductive Breaks (rule : Rule α) (attempts : Nat) (problem : Objective σ α) (x0 : Vec α)
    (views : List (View α)) (carried : Option α) (o : σ) :
    SolverError α → List (Event α) → σ → Prop
  | nonFinite {x gradient : Vec α} {o' : σ} : reached x0 views = .ok x →
      problem.gradient x o = (.ok gradient, o') → Scalar.isFinite gradient.normSq = false →
      Breaks rule attempts problem x0 views carried o (.nonFiniteGradient views.length) [] o'
  | refused {x gradient : Vec α} {decided : Stabilised α} {error : SolverError α} {o₁ o₂ : σ} :
      reached x0 views = .ok x → problem.gradient x o = (.ok gradient, o₁) →
      rule.Decides attempts problem x gradient views.length carried o₁ decided o₂ →
      decided.outcome = .error (.error error) →
      (∀ event ∈ decided.events, event.level = .trace) →
      Breaks rule attempts problem x0 views carried o error decided.events.toList o₂

/-- How a run ends whose solution lies where the views lead: the gradient and the value there are
evaluated last. -/
structure Closes (problem : Objective σ α) (x0 : Vec α) (views : List (View α))
    (solution : Solution α) (o o' : σ) : Prop where
  arrived : reached x0 views = .ok solution.x
  evaluated : ∃ gradient o₁, problem.gradient solution.x o = (.ok gradient, o₁) ∧
    solution.gradientNormSq = gradient.normSq ∧
    problem.value solution.x o₁ = (.ok solution.value, o')

/-- The log tells of a solve from `x0` with this result, when the objective was in the state `o` and
a shift was inherited. Nothing is said of a solve that a fault cut off. -/
def Session.Tells (rule : Rule α) (attempts : Nat) (problem : Objective σ α)
    (config : SearchConfig α) (x0 : Vec α) (inherited : Option α) (o : σ) (s : Session σ α) :
    Except (Stop α) (Solution α) → Prop
  | .ok solution => ∃ entries carried o',
      Narrates rule attempts problem config x0 inherited o s.views.toList entries carried o' ∧
        Closes problem x0 s.views.toList solution o' s.objective ∧
        s.log.toList = rule.announcement problem.unknowns ++ entries ++ [solution.verdict] ∧
        solution.verdict.level = if solution.converged then .info else .warn
  | .error (.error error) => ∃ entries carried o' rest,
      Narrates rule attempts problem config x0 inherited o s.views.toList entries carried o' ∧
        Breaks rule attempts problem x0 s.views.toList carried o' error rest s.objective ∧
        s.log.toList = rule.announcement problem.unknowns ++ entries ++ rest
  | .error (.fault _) => True

section Runs

variable {rule : Rule α} {attempts : Nat} {problem : Objective σ α} {config : SearchConfig α}
  {x0 x : Vec α} {inherited : Option α} {o : σ} {state : Convergence α}

/-- So far the log tells of the views, which lead from `x0` to `x`. -/
structure Session.Narrated (rule : Rule α) (attempts : Nat) (problem : Objective σ α)
    (config : SearchConfig α) (x0 : Vec α) (inherited : Option α) (o : σ) (s : Session σ α)
    (x : Vec α) : Prop where
  told : ∃ entries,
    Narrates rule attempts problem config x0 inherited o s.views.toList entries s.carried
        s.objective ∧
      s.log.toList = rule.announcement problem.unknowns ++ entries
  arrived : reached x0 s.views.toList = .ok x

/-- The gradient at `x` was evaluated next, and that is all. -/
structure Session.Sees (s : Session σ α) (problem : Objective σ α) (x gradient : Vec α)
    (s' : Session σ α) : Prop where
  views_eq : s'.views = s.views
  carried_eq : s'.carried = s.carried
  log_eq : s'.log = s.log
  gradient_eq : problem.gradient x s.objective = (.ok gradient, s'.objective)

namespace Descent

omit [Kernel α] in
theorem look_sees (s : Session σ α) :
    Ends (look problem x state) s
      (fun looked s' => s.Sees problem x looked.1 s' ∧ looked.2 = state.observe looked.1.normSq)
      (fun stop s' => ∀ error, stop = .error error → error = .nonFiniteGradient state.iteration ∧
        ∃ gradient, s.Sees problem x gradient s' ∧ Scalar.isFinite gradient.normSq = false) := by
  refine .bind (ends_evaluation (fun gradient o hgradient => ?_) fun _ _ _ => nofun)
  have hsees : s.Sees problem x gradient { s with objective := o } := ⟨rfl, rfl, rfl, hgradient⟩
  dsimp only
  split
  · exact .pure ⟨hsees, rfl⟩
  · rename_i hinfinite
    refine ends_fail fun error herror => ?_
    cases herror
    exact ⟨rfl, gradient, hsees, by simpa using hinfinite⟩

/-- An iteration that is completed adds its part to the log. -/
theorem narrated_push {gradient : Vec α} {s s₁ s₂ : Session σ α}
    (h : s.Narrated rule attempts problem config x0 inherited o x)
    (hcount : state.iteration = s.views.size) (hsees : s.Sees problem x gradient s₁)
    (hnorm : state.gradientNormSq = gradient.normSq) {d : Direction α} {decided : Stabilised α}
    (hdecides : rule.Decides attempts problem x gradient state.iteration s₁.carried s₁.objective
      decided s₂.objective)
    (hd : decided.outcome = .ok d) (htook : s₁.Took decided s₂) {outcome : SearchOutcome α} {o' : σ}
    (hsearch : LineSearch.backtracking problem x d.vector gradient config s₂.objective =
      (.ok outcome, o'))
    {next : Vec α} (hnext : x.move outcome.step d.vector = .ok next) :
    ({  objective := o'
        carried := s₂.carried
        views := s₂.views.push ⟨state.iteration, x, gradient, d.vector, outcome.step,
          outcome.status, d.regularisation⟩
        log := (s₂.log ++ outcome.warnings).push (.iteration state.iteration state.gradientNormSq
          outcome.step outcome.shrinks d.regularisation) } : Session σ α).Narrated rule attempts
      problem config x0 inherited o next := by
  obtain ⟨entries, hnarrates, hlog⟩ := h.told
  let view : View α := ⟨state.iteration, x, gradient, d.vector, outcome.step, outcome.status,
    d.regularisation⟩
  have hwarns : view.Warns outcome.shrinks outcome.warnings :=
    outcome.warns rfl rfl (LineSearch.backtracking_slope_eq hsearch)
  have hcounted : view.iteration = s.views.toList.length := by simpa using hcount
  rw [hsees.carried_eq] at hdecides
  have hsnoc := hnarrates.snoc hcounted h.arrived hsees.gradient_eq hdecides hd hdecides.level
    hsearch hwarns
  have hviews : s₂.views = s.views := htook.views_eq.trans hsees.views_eq
  have hlog₂ : s₂.log = s.log ++ decided.events := by rw [htook.log_eq, hsees.log_eq]
  constructor
  · refine ⟨_, by simpa [hviews, htook.carried_eq] using hsnoc, ?_⟩
    simp [hlog₂, hlog, View.summary, view, hnorm]
  · simpa [hviews] using hnext

/-- If a rule finds no direction, its reports are all that is left of the iteration. -/
theorem tells_refused {gradient : Vec α} {s s₁ s₂ : Session σ α}
    (h : s.Narrated rule attempts problem config x0 inherited o x)
    (hcount : state.iteration = s.views.size) (hsees : s.Sees problem x gradient s₁)
    {decided : Stabilised α} {error : SolverError α}
    (hdecides : rule.Decides attempts problem x gradient state.iteration s₁.carried s₁.objective
      decided s₂.objective)
    (herror : decided.outcome = .error (.error error)) (htook : s₁.Took decided s₂) :
    s₂.Tells rule attempts problem config x0 inherited o (.error (.error error)) := by
  obtain ⟨entries, hnarrates, hlog⟩ := h.told
  have hviews : s₂.views = s.views := htook.views_eq.trans hsees.views_eq
  have hlog₂ : s₂.log = s.log ++ decided.events := by rw [htook.log_eq, hsees.log_eq]
  have hbreaks : Breaks rule attempts problem x0 s₂.views.toList s.carried s.objective error
      decided.events.toList s₂.objective := by
    rw [hviews]
    refine .refused h.arrived hsees.gradient_eq ?_ herror hdecides.level
    rwa [Array.length_toList, ← hcount, ← hsees.carried_eq]
  exact ⟨entries, s.carried, _, _, by rwa [hviews], hbreaks, by simp [hlog₂, hlog]⟩

theorem step_narrates {gradient : Vec α} {s s₁ : Session σ α}
    (h : s.Narrated rule attempts problem config x0 inherited o x)
    (hcount : state.iteration = s.views.size) (hsees : s.Sees problem x gradient s₁)
    (hnorm : state.gradientNormSq = gradient.normSq) :
    Ends (step rule attempts problem config x gradient state) s₁
      (fun next s' => s'.Narrated rule attempts problem config x0 inherited o next ∧
        state.advance.iteration = s'.views.size)
      (fun stop s' => s'.Tells rule attempts problem config x0 inherited o (.error stop)) := by
  refine .bind ((direction_decides rule attempts problem x gradient state.iteration s₁).imp
    (fun d s₂ hfound => ?_) fun stop s₂ hstop => ?_)
  · obtain ⟨decided, hdecides, hd, htook⟩ := hfound
    refine .bind (ends_evaluation (fun outcome o' hsearch => ?_) fun _ _ _ => trivial)
    refine .bind (ends_reportAll (.bind (ends_report (.bind (ends_present ?_)))))
    refine ends_settle (fun next hnext => ⟨?_, ?_⟩) fun _ _ => trivial
    · exact narrated_push h hcount hsees hnorm hdecides hd htook hsearch hnext
    · simp [htook.views_eq, hsees.views_eq, Convergence.advance, hcount]
  · cases stop with
    | fault fault => trivial
    | error error =>
        obtain ⟨decided, hdecides, herror, htook⟩ := hstop error rfl
        exact tells_refused h hcount hsees hdecides herror htook

omit [Scalar α] [Kernel α] in
theorem conclude_reports (x : Vec α) (state : Convergence α) (s : Session σ α) :
    Ends (conclude problem x state) s
      (fun solution s' => (s'.views = s.views ∧ s'.log = s.log.push solution.verdict) ∧
        solution.x = x ∧ solution.gradientNormSq = state.gradientNormSq ∧
        problem.value x s.objective = (.ok solution.value, s'.objective))
      (fun stop _ => ∃ fault, stop = .fault fault) :=
  .bind (ends_report (.bind (ends_evaluation
    (fun _ _ hvalue => .pure ⟨⟨rfl, rfl⟩, rfl, rfl, hvalue⟩) fun fault _ _ => ⟨fault, rfl⟩)))

theorem conclude_tells {gradient : Vec α} {s s₁ : Session σ α}
    (h : s.Narrated rule attempts problem config x0 inherited o x)
    (hsees : s.Sees problem x gradient s₁) (hnorm : state.gradientNormSq = gradient.normSq) :
    Ends (conclude problem x state) s₁
      (fun solution s' => s'.Tells rule attempts problem config x0 inherited o (.ok solution))
      (fun stop s' => s'.Tells rule attempts problem config x0 inherited o (.error stop)) := by
  obtain ⟨entries, hnarrates, hlog⟩ := h.told
  apply (conclude_reports x state s₁).imp
  · rintro solution s' ⟨⟨hviews, hreported⟩, rfl, hnormSq, hvalue⟩
    rw [← hsees.views_eq, ← hviews] at hnarrates
    have hcloses : Closes problem x0 s'.views.toList solution s.objective s'.objective := by
      refine ⟨?_, gradient, s₁.objective, hsees.gradient_eq, hnormSq.trans hnorm, hvalue⟩
      rw [hviews, hsees.views_eq]
      exact h.arrived
    refine ⟨entries, s.carried, _, hnarrates, hcloses, ?_, solution.level_verdict⟩
    simp [hreported, hsees.log_eq, hlog]
  · rintro stop s' ⟨fault, rfl⟩
    trivial

theorem look_tells {s : Session σ α}
    (h : s.Narrated rule attempts problem config x0 inherited o x)
    (hcount : state.iteration = s.views.size) :
    Ends (look problem x state) s
      (fun looked s' => s.Sees problem x looked.1 s' ∧ looked.2 = state.observe looked.1.normSq)
      (fun stop s' => s'.Tells rule attempts problem config x0 inherited o (.error stop)) := by
  apply (look_sees s).imp
  · exact fun _ _ hlooked => hlooked
  · rintro stop s' hstop
    cases stop with
    | fault fault => trivial
    | error error =>
        obtain ⟨rfl, gradient, hsees, hinfinite⟩ := hstop error rfl
        obtain ⟨entries, hnarrates, hlog⟩ := h.told
        have hbreaks : Breaks rule attempts problem x0 s.views.toList s.carried s.objective
            (.nonFiniteGradient state.iteration) [] s'.objective := by
          rw [hcount, ← Array.length_toList]
          exact .nonFinite h.arrived hsees.gradient_eq hinfinite
        rw [← hsees.views_eq] at hnarrates hbreaks
        exact ⟨entries, s.carried, _, [], hnarrates, hbreaks, by simp [hsees.log_eq, hlog]⟩

/-- From where the log tells of the views so far, it tells of the whole run. -/
theorem remainder_tells (n : Nat) {s : Session σ α}
    (h : s.Narrated rule attempts problem config x0 inherited o x)
    (hcount : state.iteration = s.views.size) (hpending : state.converged = false) :
    Ends (loop rule attempts problem config n x state >>= closing problem) s
      (fun solution s' => s'.Tells rule attempts problem config x0 inherited o (.ok solution))
      (fun stop s' => s'.Tells rule attempts problem config x0 inherited o (.error stop)) := by
  induction n generalizing s x state with
  | zero =>
      rw [remainder_zero x hpending]
      refine .bind ((look_tells h hcount).imp (fun looked s₁ hlooked => ?_) fun _ _ h => h)
      exact conclude_tells h hlooked.1 (congrArg Convergence.gradientNormSq hlooked.2)
  | succ n ih =>
      rw [remainder_succ]
      refine .bind ((look_tells h hcount).imp (fun looked s₁ hlooked => ?_) fun _ _ h => h)
      obtain ⟨hsees, hstate⟩ := hlooked
      have hnorm : looked.2.gradientNormSq = looked.1.normSq := by
        rw [hstate]
        rfl
      split
      · exact conclude_tells h hsees hnorm
      · rename_i hunmet
        have hcount₁ : looked.2.iteration = s.views.size := by
          rw [hstate]
          exact hcount
        refine .bind ((step_narrates h hcount₁ hsees hnorm).imp
          (fun next s₂ hstep => ?_) fun _ _ h => h)
        exact ih hstep.1 hstep.2 (by simpa [Convergence.advance] using hunmet)

end Descent

end Runs

/-! ## Solves -/

section Solves

variable {rule : Rule α} {problem : Objective σ α} {config : SolverConfig α} {x0 : Vec α}

omit [Kernel α] in
theorem prepare_announces (h : ∀ stabiliser, rule = .stabilised stabiliser →
    stabiliser.validate = .ok ()) (s : Session σ α) :
    rule.prepare s = (.ok (), { s with log := s.log ++ rule.selection }) := by
  cases rule with
  | steepest => simp [Rule.selection, Rule.prepare, pure, ExceptT.pure, ExceptT.mk, StateT.pure]
  | newton => simp [Rule.selection, Rule.prepare, pure, ExceptT.pure, ExceptT.mk, StateT.pure]
  | stabilised stabiliser =>
      simp only [Rule.prepare, h stabiliser rfl, report_apply, Rule.selection]
      simp

omit [Kernel α] in
theorem opening_announces (h : Admissible rule config problem.unknowns x0) (s : Session σ α) :
    Descent.opening rule problem config x0 s =
      (.ok (), { s with log := s.log ++ rule.announcement problem.unknowns }) := by
  have hlog : ((s.log ++ rule.selection).push (.solveStarted rule.name problem.unknowns)).push
      (.banner rule.name) = s.log ++ rule.announcement problem.unknowns :=
    Array.ext' (by simp [Rule.announcement])
  rw [Descent.opening, bind_apply, prepare_announces h.rule_valid]
  simp [h.config_valid, h.dimension, bind_apply, report_apply, ← hlog]

/-- The log of a solve whose parameters are not refused tells of its views and of its result. -/
theorem solve_tells {attempts : Nat} {inherited : Option α} {o : σ}
    (h : Admissible rule config problem.unknowns x0)
    {result : Except (Stop α) (Solution α)} {session : Session σ α}
    (hrun : solve rule attempts problem config x0 (.start o inherited) = (result, session)) :
    session.Tells rule attempts problem config.lineSearch x0 inherited o result := by
  have hstart : ({ start o inherited with
      log := (start o inherited : Session σ α).log ++ rule.announcement problem.unknowns } :
        Session σ α).Narrated rule attempts problem config.lineSearch x0 inherited o x0 := by
    constructor
    · exact ⟨[], .nil, by simp [start]⟩
    · rfl
  have hcount : (Convergence.start config).iteration =
      (start o inherited : Session σ α).views.size := rfl
  have hends := Descent.remainder_tells config.maxIterations hstart hcount rfl
  rw [solve_eq_stages, bind_apply, opening_announces h] at hrun
  cases result with
  | ok solution => exact hends.answer hrun
  | error stop => exact hends.stop hrun

/-- A run on the saddle whose first shift is refused in the second iteration and whose next one is
too large. The first iteration ends at its shrink limit. -/
theorem saddle_tells :
    ∃ session,
      solve (.stabilised (.diagonalShift ⟨10.0, 0.1, 0.5, .carryForward⟩)) 100
        ((Problem.saddle .default).objective Unit) ⟨1e-4, 3, ⟨3.0, 0.5, 0.5, 0⟩⟩ [0.0, 1.5]
        (.start ()) = (.error (.error (.regularisationOverflow 1.0 0.5 1)), session) ∧
      session.log.toList.map Event.level = [.debug, .info, .info, .warn, .debug, .trace] ∧
      session.Tells (.stabilised (.diagonalShift ⟨10.0, 0.1, 0.5, .carryForward⟩)) 100
        ((Problem.saddle (.default : Saddle Float)).objective Unit) ⟨3.0, 0.5, 0.5, 0⟩ [0.0, 1.5]
        none () (.error (.error (.regularisationOverflow 1.0 0.5 1))) := by
  obtain ⟨session, hrun, hlevels⟩ := exists_of_stopsWith
    (solve (.stabilised (.diagonalShift ⟨10.0, 0.1, 0.5, .carryForward⟩)) 100
      ((Problem.saddle .default).objective Unit) ⟨1e-4, 3, ⟨3.0, 0.5, 0.5, 0⟩⟩ [0.0, 1.5])
    (.start ()) (.error (.regularisationOverflow 1.0 0.5 1))
    (fun session => decide (session.log.toList.map Event.level =
      [.debug, .info, .info, .warn, .debug, .trace])) (by decide +kernel)
  have hstart : Admissible (.stabilised (.diagonalShift ⟨10.0, 0.1, 0.5, .carryForward⟩))
      ⟨1e-4, 3, ⟨3.0, 0.5, 0.5, 0⟩⟩
      ((Problem.saddle (.default : Saddle Float)).objective Unit).unknowns [0.0, 1.5] := by
    constructor
    · rintro _ ⟨⟩
      decide +kernel
    · decide +kernel
    · rfl
  exact ⟨session, hrun, of_decide_eq_true hlevels, solve_tells hstart hrun⟩

end Solves

end Downhill
