import Downhill.Proofs.Run.Trajectory

/-! # The loop

What holds whenever a run is about to look at a gradient, when it has looked, and when it stops.
Each part of the loop leads from one of these to another, and so does the loop as a whole.
-/

namespace Downhill

open Session

variable {σ α β : Type}

/-! ## Steps of a session -/

section Steps

variable {s : Session σ α} {answered : β → Session σ α → Prop}
  {stopped : Stop α → Session σ α → Prop}

theorem ends_evaluate {evaluation : Eval σ β}
    (h : Ends evaluation s.objective (fun b calls => answered b { s with objective := calls })
      (fun fault calls => stopped (.fault fault) { s with objective := calls })) :
    Ends (evaluate evaluation) s answered stopped := by
  simp only [Ends, evaluate] at h ⊢
  cases hrun : evaluation s.objective with
  | mk outcome calls =>
      rw [hrun] at h
      cases outcome with
      | ok b => exact h
      | error fault => exact h

theorem ends_evaluation {evaluation : Eval σ β}
    (hok : ∀ b o, evaluation s.objective = (.ok b, o) → answered b { s with objective := o })
    (herror : ∀ fault o, evaluation s.objective = (.error fault, o) →
      stopped (.fault fault) { s with objective := o }) :
    Ends (evaluate evaluation) s answered stopped := by
  refine ends_evaluate ?_
  unfold Ends
  cases h : evaluation s.objective with
  | mk outcome o =>
      cases outcome with
      | ok b => exact hok b o h
      | error fault => exact herror fault o h

theorem ends_settle {answer : Except Fault β} (hok : ∀ b, answer = .ok b → answered b s)
    (herror : ∀ fault, answer = .error fault → stopped (.fault fault) s) :
    Ends (settle answer) s answered stopped := by
  cases answer with
  | ok b => exact hok b rfl
  | error fault => exact herror fault rfl

theorem ends_fail {error : SolverError α} (h : stopped (.error error) s) :
    Ends (fail error) s answered stopped := h

theorem ends_report {event : Event α} {answered : Unit → Session σ α → Prop}
    (h : answered () { s with log := s.log.push event }) :
    Ends (report event) s answered stopped := h

theorem ends_reportAll {events : List (Event α)}
    {answered : Unit → Session σ α → Prop}
    (h : answered () { s with log := s.log ++ events }) :
    Ends (reportAll events) s answered stopped := h

theorem ends_present {view : View α} {answered : Unit → Session σ α → Prop}
    (h : answered () { s with views := s.views.push view }) :
    Ends (present view) s answered stopped := h

theorem ends_gradient {f : Answers α} {x : Vec α} {calls : List (Call α)}
    {answered : Vec α → List (Call α) → Prop} {stopped : Fault → List (Call α) → Prop}
    (hok : ∀ g, f.gradient x = .ok g → answered g (calls ++ [.gradient x]))
    (herror : ∀ fault, f.gradient x = .error fault → stopped fault (calls ++ [.gradient x])) :
    Ends (f.traced.gradient x) calls answered stopped := by
  simp only [Ends, Answers.traced]
  cases h : f.gradient x with
  | ok g => exact hok g h
  | error fault => exact herror fault h

end Steps

variable [Scalar α] [Kernel α] (f : Answers α) (rule : Rule α) (attempts : Nat)
  (config : SolverConfig α) (x0 : Vec α) (inherited : Option α)

/-! ## Where a run stands -/

/-- The session holds the views that lead from `x0` to `x`, after a start with the inherited
shift. -/
structure At (s : Session (List (Call α)) α) (x : Vec α) : Prop where
  chronicle : Chronicle f rule attempts config x0 inherited s.views.toList
  arrived : reached x0 s.views.toList = .ok x
  carried_eq : s.carried = carriedAfter f rule attempts inherited s.views.toList

/-- The gradient at `x` is still to be evaluated. -/
structure Underway (s : Session (List (Call α)) α) (x : Vec α) (state : Convergence α) : Prop
    extends At f rule attempts config x0 inherited s x where
  iteration_eq : state.iteration = s.views.size
  threshold_eq : state.threshold = config.threshold
  pending : state.converged = false
  gradients : s.objective.filterMap Call.gradientPoint? = s.views.toList.map View.x

/-- The gradient at `x` has been evaluated and its norm noted. -/
structure Looked (s : Session (List (Call α)) α) (x gradient : Vec α)
    (state : Convergence α) : Prop extends At f rule attempts config x0 inherited s x where
  iteration_eq : state.iteration = s.views.size
  threshold_eq : state.threshold = config.threshold
  gradient_eq : f.gradient x = .ok gradient
  finite : Scalar.isFinite gradient.normSq = true
  norm_eq : state.gradientNormSq = gradient.normSq
  converged_eq : state.converged = decide (gradient.normSq ≤ config.threshold)
  gradients : s.objective.filterMap Call.gradientPoint? = s.views.toList.map View.x ++ [x]

/-- Why a run stops without a result. -/
inductive Failed (s : Session (List (Call α)) α) : Stop α → Prop
  | nonFinite {x gradient : Vec α} : At f rule attempts config x0 inherited s x →
      f.gradient x = .ok gradient → Scalar.isFinite gradient.normSq = false →
      Failed s (.error (.nonFiniteGradient s.views.size))
  | refused {x gradient : Vec α} {error : SolverError α} :
      At f rule attempts config x0 inherited s x →
      Unsettled f config.threshold x gradient →
      (rule.answer attempts f s.carried x gradient s.views.size).1 = .error (.error error) →
      Failed s (.error error)
  | fault {fault : Fault} : Chronicle f rule attempts config x0 inherited s.views.toList →
      Failed s (.fault fault)

variable {f rule attempts config x0 inherited} in
theorem Failed.chronicle {s : Session (List (Call α)) α} {stop : Stop α}
    (h : Failed f rule attempts config x0 inherited s stop) :
    Chronicle f rule attempts config x0 inherited s.views.toList := by
  cases h with
  | nonFinite hat _ _ => exact hat.chronicle
  | refused hat _ _ => exact hat.chronicle
  | fault hchronicle => exact hchronicle

/-- How the loop halts at a point: the gradient there meets the threshold, or there have been as
many iterations as allowed. -/
inductive Halted (limit : Nat) (s : Session (List (Call α)) α) : Vec α × Convergence α → Prop
  | converged {x gradient : Vec α} {state : Convergence α} :
      Looked f rule attempts config x0 inherited s x gradient state → state.converged = true →
      s.views.size < limit → Halted limit s (x, state)
  | capped {x : Vec α} {state : Convergence α} :
      Underway f rule attempts config x0 inherited s x state → s.views.size = limit →
      Halted limit s (x, state)

/-- A result belongs to the point that the views lead to. -/
structure Finished (s : Session (List (Call α)) α) (solution : Solution α) : Prop
    extends At f rule attempts config x0 inherited s solution.x where
  iterations_eq : solution.iterations = s.views.size
  within : solution.iterations ≤ config.maxIterations
  exhausted : solution.converged = false → solution.iterations = config.maxIterations
  gradient_eq : ∃ gradient, f.gradient solution.x = .ok gradient ∧
    solution.gradientNormSq = gradient.normSq
  finite : Scalar.isFinite solution.gradientNormSq = true
  converged_eq : solution.converged = decide (solution.gradientNormSq ≤ config.threshold)
  value_eq : f.value solution.x = .ok solution.value
  gradients : s.objective.filterMap Call.gradientPoint? =
    s.views.toList.map View.x ++ [solution.x]

/-! ## The parts of the loop -/

namespace Descent

variable {f rule attempts config x0 inherited}

theorem look_ends {s : Session (List (Call α)) α} {x : Vec α} {state : Convergence α}
    (h : Underway f rule attempts config x0 inherited s x state) :
    Ends (look f.traced x state) s
      (fun looked s' => Looked f rule attempts config x0 inherited s' x looked.1 looked.2 ∧
        s'.views = s.views)
      (fun stop s' => Failed f rule attempts config x0 inherited s' stop) := by
  unfold look
  refine .bind (ends_evaluate (ends_gradient (fun gradient hgradient => ?_) fun _ _ => ?_))
  · have hat : At f rule attempts config x0 inherited
        { s with objective := s.objective ++ [.gradient x] } x :=
      ⟨h.chronicle, h.arrived, h.carried_eq⟩
    dsimp only
    split
    · rename_i hfinite
      refine .pure ⟨{ hat with
        iteration_eq := h.iteration_eq
        threshold_eq := h.threshold_eq
        gradient_eq := hgradient
        finite := hfinite
        norm_eq := rfl
        converged_eq := by simp [Convergence.observe, h.threshold_eq]
        gradients := by simp [h.gradients, Call.gradientPoint?] }, rfl⟩
    · rename_i hfinite
      refine ends_fail ?_
      rw [h.iteration_eq]
      exact .nonFinite hat hgradient (by simpa using hfinite)
  · exact .fault h.chronicle

theorem direction_ends {s : Session (List (Call α)) α} {x gradient : Vec α} {iteration : Nat}
    {answered : Direction α → Session (List (Call α)) α → Prop}
    {stopped : Stop α → Session (List (Call α)) α → Prop}
    {answer : Except (Stop α) (Direction α) × Session (List (Call α)) α}
    (hanswer : rule.answer attempts f s.carried x gradient iteration = answer)
    (hok : ∀ d, answer.1 = .ok d →
      answered d ⟨s.objective ++ answer.2.objective, answer.2.carried, s.views,
        s.log ++ answer.2.log⟩)
    (herror : ∀ stop, answer.1 = .error stop →
      stopped stop ⟨s.objective ++ answer.2.objective, answer.2.carried, s.views,
        s.log ++ answer.2.log⟩) :
    Ends (rule.direction attempts f.traced x gradient iteration) s answered stopped := by
  unfold Ends
  rw [Rule.direction_eq_answer, hanswer]
  obtain ⟨outcome, after⟩ := answer
  cases outcome with
  | ok d => exact hok d rfl
  | error stop => exact herror stop rfl

theorem step_ends {s : Session (List (Call α)) α} {x gradient : Vec α} {state : Convergence α}
    (h : Looked f rule attempts config x0 inherited s x gradient state)
    (hpending : state.converged = false) :
    Ends (step rule attempts f.traced config.lineSearch x gradient state) s
      (fun next s' => Underway f rule attempts config x0 inherited s' next state.advance ∧
        s'.views.size = s.views.size + 1)
      (fun stop s' => Failed f rule attempts config x0 inherited s' stop) := by
  have hunsettled : Unsettled f config.threshold x gradient :=
    ⟨h.gradient_eq, h.finite, by simpa [h.converged_eq] using hpending⟩
  unfold step
  rw [h.iteration_eq]
  refine .bind (direction_ends rfl (fun d hd => ?_) fun stop hstop => ?_)
  · refine .bind (ends_evaluate (LineSearch.search_ends (fun outcome houtcome => ?_) fun _ _ =>
      .fault h.chronicle))
    -- The view joins the chronicle before the point moves.
    have hshown : Shown f rule attempts config
        (carriedAfter f rule attempts inherited s.views.toList)
        ⟨s.views.size, x, gradient, d.vector, outcome.step, outcome.status, d.regularisation⟩ :=
      ⟨hunsettled, by rwa [← h.carried_eq], outcome, houtcome, rfl, rfl⟩
    have hchronicle := h.chronicle.snoc (by simp) h.arrived hshown
    refine .bind (ends_reportAll (.bind (ends_report (.bind (ends_present ?_)))))
    refine ends_settle (fun next hnext => ?_) fun _ _ => .fault (by simpa using hchronicle)
    refine ⟨⟨⟨by simpa using hchronicle, by simpa using hnext, ?_⟩, ?_, h.threshold_eq, hpending,
      ?_⟩, by simp⟩
    · simp [carriedAfter_append_singleton, h.carried_eq]
    · simp [Convergence.advance, h.iteration_eq]
    · simp [h.gradients, Rule.answer_gradientPoints, LineSearch.search_onlyValues.gradientPoints]
  · cases stop with
    | fault fault => exact .fault h.chronicle
    | error error =>
        obtain ⟨-, hcarried⟩ := Rule.answer_error hstop
        refine .refused ⟨h.chronicle, h.arrived, ?_⟩ hunsettled ?_
        · exact hcarried.trans h.carried_eq
        · rwa [hcarried]

theorem loop_ends (remaining : Nat) {s : Session (List (Call α)) α} {x : Vec α}
    {state : Convergence α} (h : Underway f rule attempts config x0 inherited s x state) :
    Ends (loop rule attempts f.traced config.lineSearch remaining x state) s
      (fun halted s' =>
        Halted f rule attempts config x0 inherited (s.views.size + remaining) s' halted)
      (fun stop s' => Failed f rule attempts config x0 inherited s' stop) := by
  induction remaining generalizing s x state with
  | zero => exact .pure (.capped h rfl)
  | succ remaining ih =>
      refine .bind ((look_ends h).imp (fun looked s₁ hlooked => ?_) fun _ _ hfailed => hfailed)
      obtain ⟨hlooked, hviews⟩ := hlooked
      dsimp only
      split
      · rename_i hconverged
        exact .pure (.converged hlooked hconverged (by rw [hviews]; omega))
      · rename_i hpending
        refine .bind ((step_ends hlooked (by simpa using hpending)).imp (fun next s₂ hstep => ?_)
          fun _ _ hfailed => hfailed)
        obtain ⟨hnext, hsize⟩ := hstep
        have hlimit : s.views.size + (remaining + 1) = s₂.views.size + remaining := by
          rw [hsize, hviews]
          omega
        rw [hlimit]
        exact ih hnext

/-- After the loop, the point where it halted has been looked at. -/
theorem judge_ends {limit : Nat} {s : Session (List (Call α)) α} {x : Vec α}
    {state : Convergence α} (h : Halted f rule attempts config x0 inherited limit s (x, state)) :
    Ends (judge f.traced x state) s
      (fun judged s' => ∃ gradient,
        Looked f rule attempts config x0 inherited s' x gradient judged ∧
          s'.views.size ≤ limit ∧ (judged.converged = false → s'.views.size = limit))
      (fun stop s' => Failed f rule attempts config x0 inherited s' stop) := by
  unfold judge
  cases h with
  | converged hlooked hconverged hsize =>
      rw [if_pos hconverged]
      exact .pure ⟨_, hlooked, Nat.le_of_lt hsize, fun hfalse => by simp [hconverged] at hfalse⟩
  | capped hunderway hsize =>
      rw [if_neg (by simp [hunderway.pending])]
      refine .bind ((look_ends hunderway).imp (fun looked s' hlooked => ?_) fun _ _ h => h)
      obtain ⟨hlooked, hviews⟩ := hlooked
      have hsize' : s'.views.size = limit := by rw [hviews, hsize]
      exact .pure ⟨looked.1, hlooked, Nat.le_of_eq hsize', fun _ => hsize'⟩

end Descent

end Downhill
