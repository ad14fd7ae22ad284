import Mathlib
import Downhill.Proofs.Run.Stages
import Downhill.Proofs.Search.Shift

/-! # Plain and shifted Newton

Newton's method with a diagonal shift does what plain Newton does as long as that finds a
direction: the Hessian itself is tried first, and no shift is carried. Where plain Newton stops for
want of positive definiteness, the shifted run goes on from the same point.
-/

namespace Downhill

open Session Descent

variable {α : Type} [Scalar α] [Kernel α]

/-! ## The first shift -/

namespace Stabiliser

variable {shift : ShiftConfig α} {attempts iteration : ℕ} {hessian : Matrix α} {gradient : Vec α}

/-- The search for a shift when none is carried. -/
def freshShift (shift : ShiftConfig α) (attempts : ℕ) (hessian : Matrix α) (iteration : ℕ) :
    Except (Stop α) (α × (Vec α → Except Fault (Vec α))) :=
  (firstShift shift hessian iteration attempts shift.initialDelta #[]).1

/-- A search stops above the cap, or for want of attempts. -/
inductive OutOfShifts (shift : ShiftConfig α) (iteration : ℕ) : Stop α → Prop
  | overflow {delta : α} : ¬ delta ≤ shift.maxDelta →
      OutOfShifts shift iteration (.error (.regularisationOverflow delta shift.maxDelta iteration))
  | unsettled : OutOfShifts shift iteration (.fault .unsettled)

theorem firstShift_stop (hsquare : hessian.isSquare = true) {delta : α}
    {events : Array (Event α)} {stop : Stop α}
    (h : (firstShift shift hessian iteration attempts delta events).1 = .error stop) :
    OutOfShifts shift iteration stop := by
  induction attempts generalizing delta events with
  | zero =>
      cases h
      exact .unsettled
  | succ attempts ih =>
      rw [firstShift, Matrix.solver?, if_pos (Matrix.isSquare_shift hsquare delta)] at h
      by_cases hbelow : delta ≤ shift.maxDelta
      · rw [if_pos hbelow] at h
        cases hfactor : Kernel.factorise (hessian.shift delta) with
        | some solve =>
            rw [hfactor] at h
            cases h
        | none =>
            rw [hfactor] at h
            exact ih h
      · rw [if_neg hbelow] at h
        cases h
        exact .overflow hbelow

/-- Shifts that start above zero stay there. -/
theorem firstShift_pos [Scalar.Growing α] (hgamma : (1.0 : α) < shift.gamma) {delta : α}
    (hdelta : (0.0 : α) < delta) {events : Array (Event α)}
    {found : α × (Vec α → Except Fault (Vec α))}
    (h : (firstShift shift hessian iteration attempts delta events).1 = .ok found) :
    (0.0 : α) < found.1 := by
  induction attempts generalizing delta events with
  | zero => cases h
  | succ attempts ih =>
      rw [firstShift] at h
      split at h
      · split at h
        · cases h
        · cases h
          exact hdelta
        · exact ih (Scalar.Growing.pos_mul hdelta hgamma) h
      · cases h

theorem shiftDirection_none (hplain : hessian.solver? = .ok none) :
    (shiftDirection shift attempts none hessian gradient iteration).outcome =
      freshShift shift attempts hessian iteration >>= fun found =>
        newton found.2 gradient found.1 := by
  unfold shiftDirection freshShift
  rw [hplain, seed_none]
  dsimp only
  cases firstShift shift hessian iteration attempts shift.initialDelta #[] with
  | mk outcome events => cases outcome <;> rfl

end Stabiliser

variable {f : Answers α} {shift : ShiftConfig α} {attempts : ℕ}

section Answers

variable {carried : Option α} {x gradient : Vec α} {hessian : Matrix α} {iteration : ℕ}

/-- Either the Hessian has a factor, and both rules answer alike, or it has none. -/
theorem answer_eq_newton (shift : ShiftConfig α) (attempts : ℕ) (f : Answers α)
    (x gradient : Vec α) (iteration : ℕ) :
    (Rule.stabilised (.diagonalShift shift)).answer attempts f none x gradient iteration =
        Rule.newton.answer attempts f none x gradient iteration ∨
      ∃ hessian, f.hessian x = .ok hessian ∧ hessian.solver? = .ok none := by
  rw [Rule.answer_newton, Rule.answer_stabilised]
  cases hhessian : f.hessian x with
  | error fault => exact .inl rfl
  | ok hessian =>
      cases hsolver : hessian.solver? with
      | error fault =>
          left
          simp [Stabiliser.direction, Stabiliser.shiftDirection, Rule.newtonOutcome, hsolver, bare]
      | ok solver =>
          cases solver with
          | none => exact .inr ⟨hessian, rfl, hsolver⟩
          | some solve =>
              left
              simp [Stabiliser.direction, Stabiliser.shiftDirection, Rule.newtonOutcome, hsolver,
                bare]

theorem newton_answer_of_none (hhessian : f.hessian x = .ok hessian)
    (hsolver : hessian.solver? = .ok none) :
    (Rule.newton.answer attempts f carried x gradient iteration).1 =
      .error (.error (.hessianNotPositiveDefinite iteration)) := by
  rw [Rule.answer_newton, hhessian]
  simp only [Rule.newtonOutcome, hsolver]

theorem shift_answer_of_none (hhessian : f.hessian x = .ok hessian)
    (hsolver : hessian.solver? = .ok none) :
    ((Rule.stabilised (.diagonalShift shift)).answer attempts f none x gradient iteration).1 =
      Stabiliser.freshShift shift attempts hessian iteration >>= fun found =>
        Stabiliser.newton found.2 gradient found.1 := by
  rw [Rule.answer_stabilised, hhessian]
  exact Stabiliser.shiftDirection_none hsolver

/-- A Hessian that is not positive definite is shifted, not refused. -/
theorem shift_answer_ne_refused (i : ℕ) :
    ((Rule.stabilised (.diagonalShift shift)).answer attempts f carried x gradient iteration).1 ≠
      .error (.error (.hessianNotPositiveDefinite i)) := by
  intro h
  rw [Rule.answer_stabilised] at h
  cases hhessian : f.hessian x with
  | error fault => simp [hhessian] at h
  | ok hessian =>
      simp only [hhessian, Stabiliser.direction] at h
      obtain ⟨k, -, -, heq⟩ := Stabiliser.shiftDirection_refused h
      rw [heq] at h
      cases h

/-- Plain Newton reports no shift. -/
theorem newton_answer_ok {d : Direction α}
    (h : (Rule.newton.answer attempts f carried x gradient iteration).1 = .ok d) :
    d.regularisation = 0.0 := by
  rw [Rule.answer_newton] at h
  dsimp only at h
  split at h
  · contradiction
  · unfold Rule.newtonOutcome at h
    split at h
    · contradiction
    · contradiction
    · exact (Stabiliser.newton_ok h).2

/-- Plain Newton leaves the carried shift alone. -/
theorem carriedAfter_newton (f : Answers α) (attempts : ℕ) (inherited : Option α)
    (views : List (View α)) : carriedAfter f .newton attempts inherited views = inherited := by
  induction views using List.reverseRecOn with
  | nil => rfl
  | append_singleton views view ih =>
      rw [carriedAfter_append_singleton, ih, Rule.answer_newton]
      rfl

end Answers

/-! ## Where plain Newton is refused -/

/-- Why there is no shifted step at `x`: no shift was found, or what follows from it faults. -/
inductive Stuck (f : Answers α) (shift : ShiftConfig α) (attempts : ℕ) (config : SearchConfig α)
    (hessian : Matrix α) (x gradient : Vec α) (iteration : ℕ) : Stop α → Prop
  | shift {stop : Stop α} : Stabiliser.freshShift shift attempts hessian iteration = .error stop →
      Stabiliser.OutOfShifts shift iteration stop →
      Stuck f shift attempts config hessian x gradient iteration stop
  | solution {found : α × (Vec α → Except Fault (Vec α))} {fault : Fault} :
      Stabiliser.freshShift shift attempts hessian iteration = .ok found →
      found.2 gradient.neg = .error fault →
      Stuck f shift attempts config hessian x gradient iteration (.fault fault)
  | search {found : α × (Vec α → Except Fault (Vec α))} {vector : Vec α} {fault : Fault} :
      Stabiliser.freshShift shift attempts hessian iteration = .ok found →
      found.2 gradient.neg = .ok vector →
      (f.search x vector gradient config).1 = .error fault →
      Stuck f shift attempts config hessian x gradient iteration (.fault fault)

/-- `view` shows a shifted step at `x`. -/
structure ShowsShift (x gradient : Vec α) (view : View α) : Prop where
  x_eq : view.x = x
  gradient_eq : view.gradient = gradient
  shifted : (0.0 : α) < view.regularisation

/-- What becomes of a shifted run at `x`, where plain Newton is refused after the given views: it
shows a shifted step, or it is stuck there. -/
inductive Rescued {σ β : Type} (f : Answers α) (shift : ShiftConfig α) (attempts : ℕ)
    (config : SearchConfig α) (views : Array (View α)) (hessian : Matrix α) (x gradient : Vec α)
    (ended : Except (Stop α) β × Session σ α) : Prop
  | stepped (view : View α) : ended.2.views[views.size]? = some view →
      ShowsShift x gradient view → Rescued f shift attempts config views hessian x gradient ended
  | stuck (stop : Stop α) : Stuck f shift attempts config hessian x gradient views.size stop →
      ended.1 = .error stop → ended.2.views = views →
      Rescued f shift attempts config views hessian x gradient ended

/-- The run `plain` was refused where its views lead to. The run `ended` has shown the same views,
and has gone on from there or is stuck. -/
structure Departs {σ β : Type} (f : Answers α) (shift : ShiftConfig α) (attempts : ℕ)
    (config : SearchConfig α) (x0 : Vec α) (plain ended : Except (Stop α) β × Session σ α) :
    Prop where
  refused : plain.1 = .error (.error (.hessianNotPositiveDefinite plain.2.views.size))
  keeps : plain.2.Keeps ended.2
  rescued : ∃ x gradient hessian, reached x0 plain.2.views.toList = .ok x ∧
    f.gradient x = .ok gradient ∧ f.hessian x = .ok hessian ∧ hessian.solver? = .ok none ∧
      Rescued f shift attempts config plain.2.views hessian x gradient ended

section Departures

variable {σ β γ : Type} {config : SearchConfig α} {views : Array (View α)} {hessian : Matrix α}
  {x x0 gradient : Vec α} {plain ended : Except (Stop α) β × Session σ α}

/-- The result and the views tell how a run went on. -/
theorem Rescued.congr {τ : Type} {ended₁ : Except (Stop α) β × Session τ α}
    (h : Rescued f shift attempts config views hessian x gradient ended)
    (hresult : ended₁.1 = ended.1) (hviews : ended₁.2.views = ended.2.views) :
    Rescued f shift attempts config views hessian x gradient ended₁ := by
  cases h with
  | stepped view hview hshows => exact .stepped view (by rwa [hviews]) hshows
  | stuck stop hstuck hstop hkept =>
      exact .stuck stop hstuck (hresult.trans hstop) (hviews.trans hkept)

theorem Departs.congr {τ : Type} {plain₁ ended₁ : Except (Stop α) β × Session τ α}
    (h : Departs f shift attempts config x0 plain ended) (hplain : plain₁.1 = plain.1)
    (hviews : plain₁.2.views = plain.2.views) (hended : ended₁.1 = ended.1)
    (hviews' : ended₁.2.views = ended.2.views) :
    Departs f shift attempts config x0 plain₁ ended₁ := by
  obtain ⟨hrefused, hkeeps, x, gradient, hessian, harrived, hgradient, hhessian, hsolver,
    hrescued⟩ := h
  refine ⟨by rw [hplain, hviews, hrefused], ?_, x, gradient, hessian, by rwa [hviews], hgradient,
    hhessian, hsolver, ?_⟩
  · rw [Keeps, hviews, hviews']
    exact hkeeps
  · rw [hviews]
    exact hrescued.congr hended hviews'

/-- What comes after makes no difference, as long as it takes no view back. -/
theorem Departs.bind {m plain : Solve σ α β} {next nextPlain : β → Solve σ α γ} {s : Session σ α}
    (h : Departs f shift attempts config x0 (plain s) (m s))
    (hkeeps : ∀ b s₁, Ends (next b) s₁ (fun _ s₂ => s₁.Keeps s₂) fun _ s₂ => s₁.Keeps s₂) :
    Departs f shift attempts config x0 ((plain >>= nextPlain) s) ((m >>= next) s) := by
  obtain ⟨hrefused, hkept, x, gradient, hessian, harrived, hgradient, hhessian, hsolver,
    hrescued⟩ := h
  have hstop {δ : Type} {m : Solve σ α β} {next : β → Solve σ α δ} {stop : Stop α}
      (hm : (m s).1 = .error stop) : (m >>= next) s = (.error stop, (m s).2) := by
    rw [bind_apply, show m s = (.error stop, (m s).2) from Prod.ext hm rfl]
  have hlater : (m s).2.Keeps ((m >>= next) s).2 := .of_bind s hkeeps
  rw [hstop hrefused]
  refine ⟨rfl, hkept.trans hlater, x, gradient, hessian, harrived, hgradient, hhessian, hsolver, ?_⟩
  cases hrescued with
  | stepped view hview hshows => exact .stepped view (hlater.getElem? hview) hshows
  | stuck stop hstuck hend hviews =>
      rw [hstop hend]
      exact .stuck stop hstuck rfl hviews

end Departures

/-! ## Following plain Newton -/

/-- From `s`, the computation `m` does what `plain` does, unless that is refused. -/
def Follows {σ β : Type} (f : Answers α) (shift : ShiftConfig α) (attempts : ℕ)
    (config : SearchConfig α) (x0 : Vec α) (m plain : Solve σ α β) (s : Session σ α) : Prop :=
  m s = plain s ∨ Departs f shift attempts config x0 (plain s) (m s)

namespace Follows

variable {σ β γ : Type} {config : SearchConfig α} {x0 : Vec α} {m plain : Solve σ α β}
  {next nextPlain : β → Solve σ α γ} {s : Session σ α} {answered : β → Session σ α → Prop}
  {stopped : Stop α → Session σ α → Prop}

/-- What both runs share comes first. -/
theorem after (hshared : Ends m s answered stopped)
    (rest : ∀ b s', answered b s' →
      Follows f shift attempts config x0 (next b) (nextPlain b) s') :
    Follows f shift attempts config x0 (m >>= next) (m >>= nextPlain) s := by
  unfold Follows
  rw [bind_apply, bind_apply]
  cases hrun : m s with
  | mk outcome s' =>
      cases outcome with
      | ok b => exact rest b s' (hshared.answer hrun)
      | error stop => exact .inl rfl

theorem bind (first : Follows f shift attempts config x0 m plain s)
    (hplain : Ends plain s answered stopped)
    (rest : ∀ b s', answered b s' →
      Follows f shift attempts config x0 (next b) (nextPlain b) s')
    (hkeeps : ∀ b s₁, Ends (next b) s₁ (fun _ s₂ => s₁.Keeps s₂) fun _ s₂ => s₁.Keeps s₂) :
    Follows f shift attempts config x0 (m >>= next) (plain >>= nextPlain) s := by
  rcases first with hsame | hdeparts
  · have hshared : (m >>= next) s = (plain >>= next) s := by rw [bind_apply, bind_apply, hsame]
    unfold Follows
    rw [hshared]
    exact after hplain rest
  · exact .inr (hdeparts.bind hkeeps)

end Follows

/-! ## Steps and runs -/

section Runs

variable {solver : SolverConfig α} {x x0 gradient : Vec α} {state : Convergence α}

/-- Where the Hessian has no factor, a step shows a positive shift, or it is stuck. -/
theorem shifted_step_ends [Scalar.Growing α] (hvalid : shift.validate = .ok ())
    {hessian : Matrix α} (hhessian : f.hessian x = .ok hessian)
    (hsolver : hessian.solver? = .ok none) {config : SearchConfig α}
    {s : Session (List (Call α)) α} (hcarried : s.carried = none) :
    Ends (step (.stabilised (.diagonalShift shift)) attempts f.traced config x gradient state) s
      (fun _ s' => ∃ view, ShowsShift x gradient view ∧ s'.views = s.views.push view)
      (fun stop s' =>
        Stuck f shift attempts config hessian x gradient state.iteration stop ∧
            s'.views = s.views ∨
          ∃ view, ShowsShift x gradient view ∧ s'.views = s.views.push view) := by
  obtain ⟨hgamma, hinitial, -⟩ := ShiftConfig.validate_ok hvalid
  have hanswer : ((Rule.stabilised (.diagonalShift shift)).answer attempts f s.carried x gradient
      state.iteration).1 = _ := hcarried ▸ shift_answer_of_none hhessian hsolver
  refine .bind (direction_ends rfl (fun d hd => ?_) fun stop hstop => .inl ⟨?_, rfl⟩)
  · rw [hanswer] at hd
    cases hfresh : Stabiliser.freshShift shift attempts hessian state.iteration with
    | error stop =>
        rw [hfresh] at hd
        cases hd
    | ok found =>
        rw [hfresh] at hd
        obtain ⟨hvector, hregularisation⟩ := Stabiliser.newton_ok hd
        have hpos : (0.0 : α) < d.regularisation := by
          rw [hregularisation]
          exact Stabiliser.firstShift_pos hgamma hinitial hfresh
        refine .bind (ends_evaluate (LineSearch.search_ends (fun outcome _ => ?_)
          fun fault hsearch => .inl ⟨.search hfresh hvector hsearch, rfl⟩))
        refine .bind (ends_reportAll (.bind (ends_report (.bind (ends_present ?_)))))
        refine ends_settle (fun _ _ => ⟨_, ?_, rfl⟩) fun _ _ => .inr ⟨_, ?_, rfl⟩
        · exact ⟨rfl, rfl, hpos⟩
        · exact ⟨rfl, rfl, hpos⟩
  · rw [hanswer] at hstop
    cases hfresh : Stabiliser.freshShift shift attempts hessian state.iteration with
    | error stop' =>
        rw [hfresh] at hstop
        cases hstop
        exact .shift hfresh (Stabiliser.firstShift_stop (Matrix.isSquare_of_solver? hsolver) hfresh)
    | ok found =>
        rw [hfresh] at hstop
        obtain ⟨fault, hfault, rfl⟩ := Stabiliser.newton_stop hstop
        exact .solution hfresh hfault

/-- Where the Hessian has no factor, the shifted step shows the point or is stuck there. -/
theorem shifted_step_rescues [Scalar.Growing α] (hvalid : shift.validate = .ok ())
    {hessian : Matrix α} (hhessian : f.hessian x = .ok hessian)
    (hsolver : hessian.solver? = .ok none) (attempts : ℕ) {config : SearchConfig α}
    {s : Session (List (Call α)) α} (hcarried : s.carried = none)
    (hcount : state.iteration = s.views.size)
    {ended : Except (Stop α) (Vec α) × Session (List (Call α)) α}
    (hended : step (.stabilised (.diagonalShift shift)) attempts f.traced config x gradient
      state s = ended) :
    s.Keeps ended.2 ∧ Rescued f shift attempts config s.views hessian x gradient ended := by
  have hends : Ends (step (.stabilised (.diagonalShift shift)) attempts f.traced config x gradient
      state) s _ _ := shifted_step_ends hvalid hhessian hsolver hcarried
  have hstepped {view : View α} (hshows : ShowsShift x gradient view)
      (hpush : ended.2.views = s.views.push view) :
      s.Keeps ended.2 ∧ Rescued f shift attempts config s.views hessian x gradient ended :=
    ⟨.of_push hpush, .stepped view (by simp [hpush]) hshows⟩
  obtain ⟨outcome, s₁⟩ := ended
  cases outcome with
  | ok next =>
      obtain ⟨view, hshows, hpush⟩ := hends.answer hended
      exact hstepped hshows hpush
  | error stop =>
      rcases hends.stop hended with ⟨hstuck, hkept⟩ | ⟨view, hshows, hpush⟩
      · exact ⟨.of_eq hkept, .stuck stop (hcount ▸ hstuck) rfl hkept⟩
      · exact hstepped hshows hpush

/-- There the step of plain Newton is refused. -/
theorem newton_step_refused {hessian : Matrix α} (hhessian : f.hessian x = .ok hessian)
    (hsolver : hessian.solver? = .ok none) (attempts : ℕ) (config : SearchConfig α)
    (s : Session (List (Call α)) α) :
    ∃ s', step .newton attempts f.traced config x gradient state s =
      (.error (.error (.hessianNotPositiveDefinite state.iteration)), s') ∧ s'.views = s.views := by
  have hanswer : (Rule.newton.answer attempts f s.carried x gradient state.iteration).1 = _ :=
    newton_answer_of_none hhessian hsolver
  unfold step
  rw [bind_apply, Rule.direction_eq_answer]
  dsimp only
  rw [hanswer]
  exact ⟨_, rfl, rfl⟩

theorem step_follows [Scalar.Growing α] (hvalid : shift.validate = .ok ())
    {s : Session (List (Call α)) α}
    (hlooked : Looked f .newton attempts solver x0 none s x gradient state) :
    Follows f shift attempts solver.lineSearch x0
      (step (.stabilised (.diagonalShift shift)) attempts f.traced solver.lineSearch x gradient
        state)
      (step .newton attempts f.traced solver.lineSearch x gradient state) s := by
  have hcarried : s.carried = none :=
    hlooked.carried_eq.trans (carriedAfter_newton f attempts _ _)
  rcases answer_eq_newton shift attempts f x gradient state.iteration with
    hsame | ⟨hessian, hhessian, hsolver⟩
  · left
    unfold step
    rw [bind_apply, bind_apply, Rule.direction_eq_answer, Rule.direction_eq_answer, hcarried, hsame]
  · right
    obtain ⟨s', hstop, hviews⟩ := newton_step_refused hhessian hsolver attempts
      solver.lineSearch s
    obtain ⟨hkeeps, hrescued⟩ := shifted_step_rescues hvalid hhessian hsolver attempts
      hcarried hlooked.iteration_eq rfl
    rw [hstop]
    refine ⟨?_, hkeeps.of_views hviews, x, gradient, hessian, ?_, hlooked.gradient_eq, hhessian,
      hsolver, ?_⟩
    · rw [hviews, hlooked.iteration_eq]
    · rw [hviews]
      exact hlooked.arrived
    · rw [hviews]
      exact hrescued

theorem loop_follows [Scalar.Growing α] (hvalid : shift.validate = .ok ()) (n : ℕ)
    {s : Session (List (Call α)) α}
    (hunderway : Underway f .newton attempts solver x0 none s x state) :
    Follows f shift attempts solver.lineSearch x0
      (loop (.stabilised (.diagonalShift shift)) attempts f.traced solver.lineSearch n x state)
      (loop .newton attempts f.traced solver.lineSearch n x state) s := by
  induction n generalizing s x state with
  | zero => exact .inl rfl
  | succ n ih =>
      refine .after (look_ends hunderway) fun looked s₁ hlook => ?_
      obtain ⟨gradient, looked⟩ := looked
      obtain ⟨hlooked, -⟩ := hlook
      dsimp only
      cases hconverged : looked.converged with
      | true => exact .inl rfl
      | false =>
          have hadvance : looked.advance.converged = false := hconverged
          refine (step_follows hvalid hlooked).bind (step_ends hlooked hconverged)
            (fun next s₂ hnext => ih hnext.1) fun next s₂ => ?_
          exact (loop_advances n s₂ hadvance).imp (fun _ _ h => h.keeps) fun _ _ h => h

/-- From a session without a carried shift, the shifted run follows plain Newton to the end. -/
theorem remainder_follows [Scalar.Growing α] (hvalid : shift.validate = .ok ()) (n : ℕ)
    {s : Session (List (Call α)) α}
    (hunderway : Underway f .newton attempts solver x0 none s x state) :
    Follows f shift attempts solver.lineSearch x0
      (loop (.stabilised (.diagonalShift shift)) attempts f.traced solver.lineSearch n x state >>=
        closing f.traced)
      (loop .newton attempts f.traced solver.lineSearch n x state >>= closing f.traced) s := by
  refine (loop_follows hvalid n hunderway).bind (loop_ends n hunderway) (fun _ _ _ => .inl rfl) ?_
  exact fun halted s₁ =>
    (closing_keeps halted s₁).imp (fun _ _ h => .of_eq h.1) fun _ _ h => .of_eq h

end Runs

/-! ## Solves -/

section Solves

variable {σ : Type} {problem : Objective σ α} {solver : SolverConfig α} {x0 : Vec α}

omit [Kernel α] in
/-- A valid stabiliser changes nothing in the opening but what is reported. -/
theorem opening_stabilised {stabiliser : Stabiliser α} (hvalid : stabiliser.validate = .ok ())
    (problem : Objective σ α) (solver : SolverConfig α) (x0 : Vec α) (s : Session σ α) :
    ∃ log, opening (.stabilised stabiliser) problem solver x0 s =
      ((opening .newton problem solver x0 s).1,
        { (opening .newton problem solver x0 s).2 with log }) := by
  simp only [opening, bind_apply, Rule.prepare, hvalid, report_apply]
  cases solver.validate with
  | error reason => exact ⟨_, rfl⟩
  | ok _ =>
      by_cases hdimension : x0.length = problem.unknowns
      · simp only [hdimension, ne_eq, not_true_eq_false, if_false]
        exact ⟨_, rfl⟩
      · simp only [hdimension, ne_eq, not_false_eq_true, if_true]
        exact ⟨_, rfl⟩

/-- The two solves end alike, or plain Newton stops and the other one goes on from there. -/
theorem solve_follows [Scalar.Growing α] (h : problem.Gives f) (hvalid : shift.validate = .ok ())
    (o : σ) {plain shifted : Except (Stop α) (Solution α) × Session σ α}
    (hplain : solve .newton attempts problem solver x0 (.start o) = plain)
    (hshifted : solve (.stabilised (.diagonalShift shift)) attempts problem solver x0 (.start o) =
      shifted) :
    (shifted.1 = plain.1 ∧ shifted.2.views = plain.2.views ∧
      shifted.2.objective = plain.2.objective) ∨
      Departs f shift attempts solver.lineSearch x0 plain shifted := by
  have hvalid' : (Stabiliser.diagonalShift shift).validate = .ok () := hvalid
  obtain ⟨log', hopening'⟩ := opening_stabilised hvalid' problem solver x0 (.start o)
  have hopening : Ends (opening .newton problem solver x0) (.start o) _ _ := opening_spec (.start o)
  rw [solve_eq_stages, bind_apply] at hplain hshifted
  rw [hopening'] at hshifted
  cases hrun : opening .newton problem solver x0 (.start o) with
  | mk outcome s =>
      rw [hrun] at hplain hshifted
      cases outcome with
      | error stop =>
          subst hplain hshifted
          exact .inl ⟨rfl, rfl, rfl⟩
      | ok _ =>
          obtain ⟨-, log, rfl⟩ := hopening.answer hrun
          -- Nothing has been collected yet, so both rests are those of a bare session.
          have hbare (rule : Rule α) (log : Array (Event α)) :
              ∃ rest, (loop rule attempts f.traced solver.lineSearch solver.maxIterations x0
                  (.start solver) >>= closing f.traced) (bare none) = rest ∧
                (loop rule attempts problem solver.lineSearch solver.maxIterations x0
                  (.start solver) >>= closing problem) { start o with log } =
                    (rest.1, resume problem { start o with log } rest.2) :=
            ⟨_, rfl, remainder_eq_resume h _ _ _ _ _⟩
          obtain ⟨p, hp, hplain'⟩ := hbare .newton log
          obtain ⟨q, hq, hshifted'⟩ := hbare (.stabilised (.diagonalShift shift)) log'
          have hviews (rest : Except (Stop α) (Solution α) × Session (List (Call α)) α)
              (log : Array (Event α)) :
              (resume problem { start o with log } rest.2).views = rest.2.views :=
            Array.empty_append
          have hunderway : Underway f .newton attempts solver x0 none (bare none) x0
              (.start solver) := start_underway rfl rfl rfl
          have hfollows : Follows f shift attempts solver.lineSearch x0 _ _ (bare none) :=
            remainder_follows hvalid solver.maxIterations hunderway
          rw [Follows, hp, hq] at hfollows
          rw [← hplain, ← hshifted]
          dsimp only
          rw [hplain', hshifted']
          rcases hfollows with hsame | hdeparts
          · rw [hsame]
            exact .inl ⟨rfl, (hviews p log').trans (hviews p log).symm, rfl⟩
          · exact .inr (hdeparts.congr rfl (hviews p log) rfl (hviews q log'))

theorem solve_shifted_ne_refused (h : problem.Gives f) (o : σ) (i : ℕ) :
    (solve (.stabilised (.diagonalShift shift)) attempts problem solver x0 (.start o)).1 ≠
      .error (.error (.hessianNotPositiveDefinite i)) := by
  intro hrefused
  have hrun : solve (.stabilised (.diagonalShift shift)) attempts problem solver x0 (.start o) =
      (_, _) := Prod.ext hrefused rfl
  by_cases hstart : Admissible (.stabilised (.diagonalShift shift)) solver problem.unknowns x0
  · obtain ⟨calls, -, hfailed⟩ := solve_failed h hstart hrun
    cases hfailed with
    | refused _ _ hanswer => exact shift_answer_ne_refused i hanswer
  · obtain ⟨error, log, hrejects, hstop⟩ := solve_of_not_admissible attempts hstart (.start o)
    cases hrefused.symm.trans (congrArg Prod.fst hstop)
    cases hrejects

/-- As long as plain Newton is not refused, the shifted run is the same run and shifts nothing.
Where it is refused, the shifted run has come the same way and goes on from the same point. -/
theorem solve_conserves [Scalar.Growing α] (h : problem.Gives f)
    (hvalid : shift.validate = .ok ()) (attempts : ℕ) (solver : SolverConfig α) (x0 : Vec α)
    (o : σ) :
    let plain := solve .newton attempts problem solver x0 (.start o)
    let shifted := solve (.stabilised (.diagonalShift shift)) attempts problem solver x0 (.start o)
    ((∀ i, plain.1 ≠ .error (.error (.hessianNotPositiveDefinite i))) →
      shifted.1 = plain.1 ∧ shifted.2.views = plain.2.views ∧
        shifted.2.objective = plain.2.objective ∧
        ∀ view ∈ shifted.2.views, view.regularisation = 0.0) ∧
    ∀ i, plain.1 = .error (.error (.hessianNotPositiveDefinite i)) →
      plain.2.views.size = i ∧ Departs f shift attempts solver.lineSearch x0 plain shifted := by
  intro plain shifted
  have hplain : solve .newton attempts problem solver x0 (.start o) = plain := rfl
  have hshifted : solve (.stabilised (.diagonalShift shift)) attempts problem solver x0
      (.start o) = shifted := rfl
  have hfollows := solve_follows h hvalid o hplain hshifted
  refine ⟨fun hnever => ?_, fun i hrefused => ?_⟩
  · rcases hfollows with ⟨hresult, hviews, hobjective⟩ | hdeparts
    · refine ⟨hresult, hviews, hobjective, fun view hview => ?_⟩
      have hchronicle := solve_chronicle h hplain
      rw [hviews] at hview
      obtain ⟨j, hj⟩ := List.getElem?_of_mem (Array.mem_toList_iff.mpr hview)
      exact newton_answer_ok (hchronicle.shown j view hj).directed
    · exact absurd hdeparts.refused (hnever _)
  · rcases hfollows with ⟨hresult, -, -⟩ | hdeparts
    · exact absurd (hresult.trans hrefused) (solve_shifted_ne_refused h o i)
    · have hcount := hdeparts.refused.symm.trans hrefused
      cases hcount
      exact ⟨rfl, hdeparts⟩

/-- Newton's method leaves the convex region of the saddle by a long step and is refused there. With
a diagonal shift it goes on. -/
theorem saddle_conserves :
    ∃ (session session' : Session Unit Float) (solution : Solution Float),
      solve .newton 100 ((Problem.saddle .default).objective Unit)
        ⟨1e-4, 3, ⟨3.0, 0.01, 0.75, 1000⟩⟩ [0.0, 1.5] (.start ()) =
          (.error (.error (.hessianNotPositiveDefinite 1)), session) ∧
      solve (.stabilised (.diagonalShift .default)) 100 ((Problem.saddle .default).objective Unit)
        ⟨1e-4, 3, ⟨3.0, 0.01, 0.75, 1000⟩⟩ [0.0, 1.5] (.start ()) = (.ok solution, session') ∧
      session'.views.toList.map (fun view => view.regularisation == 0.0) = [true, false, true] ∧
      session.views.size = 1 ∧
      Departs (Problem.saddle (.default : Saddle Float)).answers .default 100
        ⟨3.0, 0.01, 0.75, 1000⟩ [0.0, 1.5]
        (.error (.error (.hessianNotPositiveDefinite 1)), session) (.ok solution, session') := by
  obtain ⟨session, hplain, -⟩ := exists_of_stopsWith
    (solve .newton 100 ((Problem.saddle .default).objective Unit)
      ⟨1e-4, 3, ⟨3.0, 0.01, 0.75, 1000⟩⟩ [0.0, 1.5])
    (.start ()) (.error (.hessianNotPositiveDefinite 1)) (fun _ => true) (by decide +kernel)
  obtain ⟨solution, session', hshifted, htest⟩ := exists_of_answersWith
    (solve (.stabilised (.diagonalShift .default)) 100 ((Problem.saddle .default).objective Unit)
      ⟨1e-4, 3, ⟨3.0, 0.01, 0.75, 1000⟩⟩ [0.0, 1.5])
    (.start ())
    (fun _ s => s.views.toList.map (fun view => view.regularisation == 0.0) == [true, false, true])
    (by decide +kernel)
  have hvalid : (ShiftConfig.default : ShiftConfig Float).validate = .ok () := by decide +kernel
  have hgives : ((Problem.saddle (.default : Saddle Float)).objective Unit).Gives _ :=
    Problem.objective_gives _
  have hconserves := (solve_conserves hgives hvalid 100 ⟨1e-4, 3, ⟨3.0, 0.01, 0.75, 1000⟩⟩
    [0.0, 1.5] ()).2 1
  rw [hplain, hshifted] at hconserves
  exact ⟨session, session', solution, hplain, hshifted, eq_of_beq htest, hconserves rfl⟩

end Solves

end Downhill
