import Downhill.Proofs.Run.Outcome

/-! # Stages of a solve

A solve opens, steps in a loop and closes. The cap on the iterations is known to the loop only, and
a loop with a higher cap goes on where one with a lower cap was cut off. A view that has been shown
is not taken back.
-/

namespace Downhill

open Session

variable {σ α : Type} [Scalar α]

/-! ## Opening and closing -/

namespace Descent

/-- What a solve does before the first evaluation. -/
def opening (rule : Rule α) (problem : Objective σ α) (config : SolverConfig α) (x0 : Vec α) :
    Solve σ α Unit := do
  rule.prepare
  match config.validate with
  | .error reason => fail (.invalidConfig reason)
  | .ok () =>
      if x0.length ≠ problem.unknowns then
        fail (.dimensionMismatch problem.unknowns x0.length)
      else
        report (.solveStarted rule.name problem.unknowns)
        report (.banner rule.name)

/-- The result at a point that has been judged. -/
def conclude (problem : Objective σ α) (x : Vec α) (state : Convergence α) :
    Solve σ α (Solution α) := do
  report (if state.converged then .converged state.iteration state.gradientNormSq
    else .capReached state.iteration state.gradientNormSq)
  let value ← evaluate (problem.value x)
  return state.solution x value

/-- What a solve does once the loop has halted. -/
def closing (problem : Objective σ α) (halted : Vec α × Convergence α) :
    Solve σ α (Solution α) :=
  judge problem halted.1 halted.2 >>= conclude problem halted.1

theorem closing_of_converged (problem : Objective σ α) (x : Vec α) {state : Convergence α}
    (h : state.converged = true) : closing problem (x, state) = conclude problem x state := by
  simp [closing, judge, h]

theorem closing_of_pending (problem : Objective σ α) (x : Vec α) {state : Convergence α}
    (h : state.converged = false) : closing problem (x, state) =
      look problem x state >>= fun looked => conclude problem x looked.2 := by
  simp [closing, judge, h]

end Descent

open Descent

variable [Kernel α] {rule : Rule α} {attempts : Nat} {problem : Objective σ α}

theorem solve_eq_stages (config : SolverConfig α) (x0 : Vec α) :
    solve rule attempts problem config x0 =
      opening rule problem config x0 >>= fun _ =>
        loop rule attempts problem config.lineSearch config.maxIterations x0 (.start config) >>=
          closing problem := by
  unfold solve Descent.run opening
  rw [bind_assoc]
  congr 1
  funext _
  cases config.validate with
  | error reason => rfl
  | ok _ =>
      dsimp only
      split
      · rfl
      · simp only [bind_assoc]
        rfl

namespace Descent

variable {config : SearchConfig α} {x : Vec α} {state : Convergence α}

/-- A loop is a shorter one, and the rest of it unless the shorter one ended at a convergent
point. -/
theorem loop_add (m n : Nat) (x : Vec α) (state : Convergence α)
    (hpending : state.converged = false) :
    loop rule attempts problem config (m + n) x state =
      loop rule attempts problem config m x state >>= fun halted =>
        if halted.2.converged then pure halted
        else loop rule attempts problem config n halted.1 halted.2 := by
  induction m generalizing x state with
  | zero => simp [loop, hpending]
  | succ m ih =>
      rw [Nat.succ_add]
      simp only [loop, bind_assoc]
      congr 1
      funext looked
      obtain ⟨gradient, looked⟩ := looked
      dsimp only
      cases hconverged : looked.converged with
      | true => simp [hconverged]
      | false =>
          simp only [Bool.false_eq_true, if_false, bind_assoc]
          congr 1
          funext next
          exact ih next looked.advance hconverged

/-- Without iterations left, the point is looked at and the run is over. -/
theorem remainder_zero (x : Vec α) (hpending : state.converged = false) :
    loop rule attempts problem config 0 x state >>= closing problem =
      look problem x state >>= fun looked => conclude problem x looked.2 := by
  rw [loop, pure_bind, closing_of_pending problem x hpending]

/-- Otherwise the run is over if the point is convergent, and goes on with a step if it is not. -/
theorem remainder_succ (n : Nat) (x : Vec α) (state : Convergence α) :
    loop rule attempts problem config (n + 1) x state >>= closing problem =
      look problem x state >>= fun looked =>
        if looked.2.converged then conclude problem x looked.2
        else step rule attempts problem config x looked.1 looked.2 >>= fun next =>
          loop rule attempts problem config n next looked.2.advance >>= closing problem := by
  rw [loop, bind_assoc]
  congr 1
  funext looked
  obtain ⟨gradient, looked⟩ := looked
  dsimp only
  cases hconverged : looked.converged with
  | true => simp [closing_of_converged problem x hconverged]
  | false => simp [bind_assoc]

/-! Each part of a run is an equation once its evaluations are known. -/

section Evaluated

variable {s : Session σ α} {o : σ}

omit [Kernel α] in
theorem look_eq {gradient : Vec α} (hgradient : problem.gradient x s.objective = (.ok gradient, o))
    (hfinite : Scalar.isFinite gradient.normSq = true) :
    look problem x state s =
      (.ok (gradient, state.observe gradient.normSq), { s with objective := o }) := by
  simp only [look, bind_apply, evaluate, hgradient, hfinite, if_true]
  rfl

omit [Scalar α] [Kernel α] in
theorem conclude_eq {value : α} (hvalue : problem.value x s.objective = (.ok value, o)) :
    conclude problem x state s = (.ok (state.solution x value), { s with
      objective := o
      log := s.log.push (if state.converged then .converged state.iteration state.gradientNormSq
        else .capReached state.iteration state.gradientNormSq) }) := by
  simp only [conclude, bind_apply, report_apply, evaluate, hvalue]
  rfl

theorem step_eq {s₁ : Session σ α} {gradient next : Vec α} {direction : Direction α}
    {outcome : SearchOutcome α}
    (hdirection : rule.direction attempts problem x gradient state.iteration s =
      (.ok direction, s₁))
    (hsearch : LineSearch.backtracking problem x direction.vector gradient config s₁.objective =
      (.ok outcome, o)) (hmove : x.move outcome.step direction.vector = .ok next) :
    step rule attempts problem config x gradient state s = (.ok next, {
      objective := o
      carried := s₁.carried
      views := s₁.views.push ⟨state.iteration, x, gradient, direction.vector, outcome.step,
        outcome.status, direction.regularisation⟩
      log := (s₁.log ++ outcome.warnings).push (.iteration state.iteration state.gradientNormSq
        outcome.step outcome.shrinks direction.regularisation) }) := by
  simp only [step, bind_apply, hdirection, evaluate, hsearch, reportAll_apply, report_apply,
    present_apply, hmove, settle_ok_apply]

end Evaluated

end Descent

omit [Kernel α] in
/-- An opening evaluates nothing and shows nothing; it is refused unless the parameters are
admissible. -/
theorem opening_spec {config : SolverConfig α} {x0 : Vec α} (s : Session σ α) :
    Ends (opening rule problem config x0) s
      (fun _ s' => Admissible rule config problem.unknowns x0 ∧ ∃ log, s' = { s with log })
      (fun stop s' => ¬ Admissible rule config problem.unknowns x0 ∧
        ∃ error log, Rejects error ∧ stop = .error error ∧ s' = { s with log }) := by
  by_cases hrule : ∀ stabiliser, rule = .stabilised stabiliser → stabiliser.validate = .ok ()
  · obtain ⟨log, hprepare⟩ := prepare_of_valid hrule s
    refine .bind ?_
    unfold Ends
    rw [hprepare]
    dsimp only
    cases hconfig : config.validate with
    | error reason =>
        have hrejects : Rejects (.invalidConfig reason : SolverError α) := .config reason
        refine ⟨fun hadmissible => ?_, _, log, hrejects, rfl, rfl⟩
        cases hconfig.symm.trans hadmissible.config_valid
    | ok _ =>
        by_cases hdimension : x0.length = problem.unknowns
        · simp only [hdimension, ne_eq, not_true_eq_false, if_false]
          exact ⟨⟨hrule, hconfig, hdimension⟩, _, rfl⟩
        · have hrejects : Rejects (.dimensionMismatch problem.unknowns x0.length : SolverError α) :=
            .dimension _ _
          simp only [ne_eq, hdimension, not_false_eq_true, if_true]
          exact ⟨fun hadmissible => hdimension hadmissible.dimension, _, log, hrejects, rfl, rfl⟩
  · simp only [Classical.not_forall] at hrule
    obtain ⟨stabiliser, rfl, hinvalid⟩ := hrule
    refine .bind ?_
    cases hvalidate : stabiliser.validate with
    | ok _ => exact absurd hvalidate hinvalid
    | error reason =>
        have hrejects : Rejects (.invalidConfig reason : SolverError α) := .config reason
        simp only [Rule.prepare, hvalidate]
        refine ⟨fun hadmissible => hinvalid ?_, _, s.log, hrejects, rfl, rfl⟩
        exact hadmissible.rule_valid stabiliser rfl

omit [Kernel α] in
theorem exists_opening {config : SolverConfig α} {x0 : Vec α}
    (h : Admissible rule config problem.unknowns x0) (s : Session σ α) :
    ∃ log, opening rule problem config x0 s = (.ok (), { s with log }) := by
  have hopening : Ends (opening rule problem config x0) s _ _ := opening_spec s
  cases hrun : opening rule problem config x0 s with
  | mk outcome s' =>
      cases outcome with
      | error stop => exact absurd h (hopening.stop hrun).1
      | ok _ =>
          obtain ⟨-, log, rfl⟩ := hopening.answer hrun
          exact ⟨log, rfl⟩

/-- A solve that starts is its loop and what comes after it. -/
theorem solve_of_admissible {config : SolverConfig α} {x0 : Vec α}
    (h : Admissible rule config problem.unknowns x0) (s : Session σ α) :
    ∃ log, solve rule attempts problem config x0 s =
      (loop rule attempts problem config.lineSearch config.maxIterations x0 (.start config) >>=
        closing problem) { s with log } := by
  obtain ⟨log, hopening⟩ := exists_opening h s
  refine ⟨log, ?_⟩
  rw [solve_eq_stages, bind_apply, hopening]

/-! ## Rests of a run -/

omit [Kernel α] in
theorem mirrors_closing {τ : Type} {into : τ → σ} {image : Objective τ α}
    (h : problem.Mirrored into image) (earlier : Session σ α) (halted : Vec α × Convergence α) :
    Mirrors (earlier.onto into) (closing problem halted) (closing image halted) := by
  refine (mirrors_judge h earlier halted.1 halted.2).bind fun judged => ?_
  refine (mirrors_report earlier _).bind fun _ => ?_
  exact (mirrors_evaluate earlier (h.value _)).bind fun _ => .pure _

/-- What is left of a run does not depend on what was collected before, but for the carried
shift. -/
theorem remainder_eq_resume {f : Answers α} (h : problem.Gives f) (earlier : Session σ α)
    (config : SearchConfig α) (n : Nat) (x : Vec α) (state : Convergence α) :
    (loop rule attempts problem config n x state >>= closing problem) earlier =
      let rest := (loop rule attempts f.traced config n x state >>= closing f.traced)
        (bare earlier.carried)
      (rest.1, earlier.resume problem rest.2) := by
  have hmirrored := h.mirrored earlier.objective
  have hmirrors := ((mirrors_loop hmirrored earlier rule attempts config n x state).bind
    (mirrors_closing hmirrored earlier)) (bare earlier.carried)
  rwa [onto_replay, resume_bare] at hmirrors

/-! ## Views that stay -/

/-- The views of `s` are the first ones of `s'`. -/
def Session.Keeps {σ α : Type} (s s' : Session σ α) : Prop := s.views.toList <+: s'.views.toList

namespace Session.Keeps

variable {σ α : Type} {s s₁ s₂ : Session σ α}

theorem of_eq (h : s₁.views = s.views) : s.Keeps s₁ := by simp [Keeps, h]

theorem of_push {view : View α} (h : s₁.views = s.views.push view) : s.Keeps s₁ := by
  rw [Keeps, h, Array.toList_push]
  exact List.prefix_append _ _

theorem of_views (h : s.Keeps s₂) (hviews : s₁.views = s.views) : s₁.Keeps s₂ := by
  rwa [Keeps, hviews]

theorem getElem? {view : View α} {i : Nat} (h : s.Keeps s₁) (hview : s.views[i]? = some view) :
    s₁.views[i]? = some view := by
  obtain ⟨later, hlater⟩ := h
  rw [← Array.getElem?_toList] at hview ⊢
  obtain ⟨hlt, -⟩ := List.getElem?_eq_some_iff.mp hview
  rw [← hlater, List.getElem?_append_left hlt, hview]

theorem trans (h : s.Keeps s₁) (h' : s₁.Keeps s₂) : s.Keeps s₂ := List.IsPrefix.trans h h'

theorem of_bind {β γ : Type} {m : Solve σ α β} {next : β → Solve σ α γ} (s₀ : Session σ α)
    (hkeeps : ∀ b s₁, Ends (next b) s₁ (fun _ s₂ => s₁.Keeps s₂) fun _ s₂ => s₁.Keeps s₂) :
    (m s₀).2.Keeps ((m >>= next) s₀).2 := by
  rw [bind_apply]
  cases m s₀ with
  | mk outcome s₁ =>
      cases outcome with
      | ok b => exact (hkeeps b s₁).state
      | error stop => exact .of_eq rfl

end Session.Keeps

section Steps

variable {β : Type} {s : Session σ α}

omit [Scalar α] [Kernel α] in
theorem ends_take {stabilised : Stabilised α} {answered : Direction α → Session σ α → Prop}
    {stopped : Stop α → Session σ α → Prop}
    (hok : ∀ d, stabilised.outcome = .ok d → answered d
      { s with carried := stabilised.carried, log := s.log ++ stabilised.events })
    (herror : ∀ stop, stabilised.outcome = .error stop → stopped stop
      { s with carried := stabilised.carried, log := s.log ++ stabilised.events }) :
    Ends (take stabilised) s answered stopped := by
  unfold Ends
  rw [take_apply]
  cases h : stabilised.outcome with
  | ok d => exact hok d h
  | error stop => exact herror stop h

end Steps

namespace Descent

variable {config : SearchConfig α} {x gradient : Vec α} {state : Convergence α}

omit [Kernel α] in
theorem look_keeps (s : Session σ α) :
    Ends (look problem x state) s
      (fun looked s' => s'.views = s.views ∧ looked.2.iteration = state.iteration ∧
        looked.2.threshold = state.threshold)
      (fun stop s' => s'.views = s.views ∧
        ∀ error, stop = .error error → error = .nonFiniteGradient state.iteration) := by
  refine .bind (ends_evaluation (fun gradient o _ => ?_) fun _ _ _ => ⟨rfl, nofun⟩)
  dsimp only
  split
  · exact Ends.pure ⟨rfl, rfl, rfl⟩
  · refine ends_fail ⟨rfl, fun error h => ?_⟩
    cases h
    rfl

theorem direction_keeps (iteration : Nat) (s : Session σ α) :
    Ends (rule.direction attempts problem x gradient iteration) s
      (fun _ s' => s'.views = s.views)
      (fun stop s' => s'.views = s.views ∧
        ∀ error, stop = .error error → RefusesAt iteration error) := by
  cases rule with
  | steepest => exact Ends.pure rfl
  | newton =>
      refine .bind (ends_evaluation (fun hessian o _ => ?_) fun _ _ _ => ⟨rfl, nofun⟩)
      refine .bind (ends_settle (fun solver _ => ?_) fun _ _ => ⟨rfl, nofun⟩)
      cases solver with
      | none =>
          refine ends_fail ⟨rfl, fun error h => .inl ?_⟩
          cases h
          rfl
      | some solve =>
          exact .bind (ends_settle (fun _ _ => Ends.pure rfl) fun _ _ => ⟨rfl, nofun⟩)
  | stabilised stabiliser =>
      refine .bind (ends_evaluation (fun hessian o _ => ?_) fun _ _ _ => ⟨rfl, nofun⟩)
      refine ends_take (fun _ _ => rfl) fun stop hstop => ⟨rfl, ?_⟩
      rintro error rfl
      exact (Stabiliser.direction_error hstop).1

/-- A step shows its point, or it fails before that. -/
theorem step_shows (s : Session σ α) :
    Ends (step rule attempts problem config x gradient state) s
      (fun next s' => next.length = x.length ∧
        ∃ view : View α, view.x = x ∧ s'.views = s.views.push view)
      (fun stop s' =>
        (s'.views = s.views ∧ ∀ error, stop = .error error → RefusesAt state.iteration error) ∨
        (∃ fault, stop = .fault fault) ∧
          ∃ view : View α, view.x = x ∧ s'.views = s.views.push view) := by
  refine .bind ((direction_keeps state.iteration s).imp (fun direction s₁ hviews => ?_)
    fun _ _ h => .inl h)
  refine .bind (ends_evaluation (fun outcome o _ => ?_) fun _ _ _ => .inl ⟨hviews, nofun⟩)
  refine .bind (ends_reportAll (.bind (ends_report (.bind (ends_present ?_)))))
  have hpush (view : View α) : { s₁ with objective := o }.views.push view = s.views.push view :=
    congrArg (fun views => views.push view) hviews
  refine ends_settle (fun next hnext => ⟨?_, ⟨_, ?_, hpush _⟩⟩)
    fun fault _ => .inr ⟨⟨fault, rfl⟩, _, ?_, hpush _⟩
  · unfold Vec.move Vec.zip at hnext
    split at hnext
    · rename_i hlength
      cases hnext
      simp [hlength]
    · contradiction
  · rfl
  · rfl

/-- What `n` rounds of the loop make of a session and a point. -/
structure Advanced (s : Session σ α) (x : Vec α) (state : Convergence α) (n : Nat)
    (halted : Vec α × Convergence α) (s' : Session σ α) : Prop where
  keeps : s.Keeps s'
  length_eq : halted.1.length = x.length
  threshold_eq : halted.2.threshold = state.threshold
  capped : halted.2.converged = false →
    s'.views.size = s.views.size + n ∧ halted.2.iteration = state.iteration + n

theorem loop_advances (n : Nat) (s : Session σ α) (hpending : state.converged = false) :
    Ends (loop rule attempts problem config n x state) s
      (fun halted s' => Advanced s x state n halted s') (fun _ s' => s.Keeps s') := by
  induction n generalizing s x state with
  | zero => exact Ends.pure ⟨.of_eq rfl, rfl, rfl, fun _ => ⟨rfl, rfl⟩⟩
  | succ n ih =>
      refine .bind ((look_keeps s).imp (fun looked s₁ hlooked => ?_)
        fun _ s₁ hstop => .of_eq hstop.1)
      obtain ⟨hviews, hiteration, hthreshold⟩ := hlooked
      dsimp only
      split
      · rename_i hconverged
        refine Ends.pure ⟨.of_eq hviews, rfl, hthreshold, fun hfalse => ?_⟩
        simp [hconverged] at hfalse
      · rename_i hstill
        have hkeeps : s.Keeps s₁ := .of_eq hviews
        refine .bind ((step_shows s₁).imp (fun next s₂ hstep => ?_) fun stop s₂ hstop => ?_)
        · obtain ⟨hlength, view, -, hshown⟩ := hstep
          have hkeeps₂ : s.Keeps s₂ := hkeeps.trans (.of_push hshown)
          have hnext : looked.2.advance.converged = false := by
            simpa [Convergence.advance] using hstill
          refine (ih s₂ hnext).imp (fun halted s₃ hloop => ?_) fun _ s₃ => hkeeps₂.trans
          refine ⟨hkeeps₂.trans hloop.keeps, hloop.length_eq.trans hlength,
            hloop.threshold_eq.trans hthreshold, fun hfalse => ?_⟩
          obtain ⟨hsize, hcount⟩ := hloop.capped hfalse
          have hone : looked.2.advance.iteration = state.iteration + 1 := by
            rw [Convergence.advance, hiteration]
          rw [hshown, hviews, Array.size_push] at hsize
          omega
        · rcases hstop with ⟨hviews₂, -⟩ | ⟨-, view, -, hshown⟩
          · exact hkeeps.trans (.of_eq hviews₂)
          · exact hkeeps.trans (.of_push hshown)

/-- How a run goes on from `s` at `x`: a view of the point follows, or there is no direction, or a
fault cuts the iteration off. -/
inductive GoesOn {β : Type} (s : Session σ α) (x : Vec α) (iteration : Nat)
    (ended : Except (Stop α) β × Session σ α) : Prop
  | view (view : View α) : ended.2.views[s.views.size]? = some view → view.x = x →
      GoesOn s x iteration ended
  | refused (error : SolverError α) : RefusesAt iteration error →
      ended.1 = .error (.error error) → ended.2.views = s.views → GoesOn s x iteration ended
  | fault (fault : Fault) : ended.1 = .error (.fault fault) → ended.2.views = s.views →
      GoesOn s x iteration ended

omit [Scalar α] [Kernel α] in
theorem GoesOn.of_push {β : Type} {s s₁ : Session σ α} {view : View α} {iteration : Nat}
    {ended : Except (Stop α) β × Session σ α} (hshown : s₁.views = s.views.push view)
    (hkeeps : s₁.Keeps ended.2) : GoesOn s view.x iteration ended := by
  refine .view view (hkeeps.getElem? ?_) rfl
  simp [hshown]

omit [Scalar α] [Kernel α] in
/-- How a run goes on is told by its result and its views. -/
theorem GoesOn.congr {τ β : Type} {s : Session σ α} {s₁ : Session τ α} {iteration : Nat}
    {ended : Except (Stop α) β × Session σ α} {ended₁ : Except (Stop α) β × Session τ α}
    (h : GoesOn s x iteration ended) (hviews : s₁.views = s.views) (hresult : ended₁.1 = ended.1)
    (hended : ended₁.2.views = ended.2.views) : GoesOn s₁ x iteration ended₁ := by
  cases h with
  | view view hview hx => exact .view view (by rwa [hviews, hended]) hx
  | refused error hrefuses herror hkept =>
      exact .refused error hrefuses (hresult.trans herror) (by rw [hended, hkept, hviews])
  | fault fault hfault hkept =>
      exact .fault fault (hresult.trans hfault) (by rw [hended, hkept, hviews])

/-- A step goes on with a view, whatever is done after it, or it does not go on at all. -/
theorem step_goesOn {β : Type} {rest : Vec α → Solve σ α β}
    (hrest : ∀ next s₁, Ends (rest next) s₁ (fun _ s₂ => s₁.Keeps s₂) fun _ s₂ => s₁.Keeps s₂)
    {s : Session σ α} {ended : Except (Stop α) β × Session σ α}
    (hended : (step rule attempts problem config x gradient state >>= rest) s = ended) :
    s.Keeps ended.2 ∧ GoesOn s x state.iteration ended := by
  subst hended
  have hshows : Ends (step rule attempts problem config x gradient state) s _ _ := step_shows s
  rw [bind_apply]
  cases hstep : step rule attempts problem config x gradient state s with
  | mk outcome s₁ =>
      cases outcome with
      | ok next =>
          obtain ⟨-, view, rfl, hshown⟩ := hshows.answer hstep
          have hkeeps : s₁.Keeps (rest next s₁).2 := (hrest next s₁).state
          exact ⟨(Session.Keeps.of_push hshown).trans hkeeps, .of_push hshown hkeeps⟩
      | error stop =>
          rcases hshows.stop hstep with ⟨hviews, hrefused⟩ | ⟨-, view, rfl, hshown⟩
          · refine ⟨.of_eq hviews, ?_⟩
            cases stop with
            | error error => exact .refused error (hrefused error rfl) rfl hviews
            | fault fault => exact .fault fault rfl hviews
          · exact ⟨.of_push hshown, .of_push hshown (.of_eq rfl)⟩

omit [Scalar α] [Kernel α] in
theorem conclude_keeps (x : Vec α) (state : Convergence α) (s : Session σ α) :
    Ends (conclude problem x state) s
      (fun solution s' => s'.views = s.views ∧ solution.x = x ∧
        solution.iterations = state.iteration ∧ solution.converged = state.converged)
      (fun stop s' => s'.views = s.views ∧ ∃ fault, stop = .fault fault) := by
  refine .bind (ends_report (.bind (ends_evaluation (fun value o _ => ?_) fun fault _ _ => ?_)))
  · exact Ends.pure ⟨rfl, rfl, rfl, rfl⟩
  · exact ⟨rfl, fault, rfl⟩

omit [Kernel α] in
theorem closing_keeps (halted : Vec α × Convergence α) (s : Session σ α) :
    Ends (closing problem halted) s
      (fun solution s' => s'.views = s.views ∧ solution.x = halted.1 ∧
        solution.iterations = halted.2.iteration)
      (fun _ s' => s'.views = s.views) := by
  obtain ⟨x, state⟩ := halted
  cases hconverged : state.converged with
  | true =>
      rw [closing_of_converged problem x hconverged]
      exact (conclude_keeps x state s).imp (fun _ _ h => ⟨h.1, h.2.1, h.2.2.1⟩) fun _ _ h => h.1
  | false =>
      rw [closing_of_pending problem x hconverged]
      refine .bind ((look_keeps s).imp (fun looked s₁ hlooked => ?_) fun _ _ h => h.1)
      obtain ⟨hviews, hiteration, -⟩ := hlooked
      refine (conclude_keeps x looked.2 s₁).imp (fun _ _ h => ?_) fun _ _ h => h.1.trans hviews
      exact ⟨h.1.trans hviews, h.2.1, h.2.2.1.trans hiteration⟩

/-- What is left of a run takes no view back. -/
theorem remainder_keeps (n : Nat) (s : Session σ α) (hpending : state.converged = false) :
    Ends (loop rule attempts problem config n x state >>= closing problem) s
      (fun _ s' => s.Keeps s') (fun _ s' => s.Keeps s') := by
  refine .bind ((loop_advances n s hpending).imp (fun halted s₁ hloop => ?_) fun _ _ h => h)
  refine (closing_keeps halted s₁).imp (fun _ _ h => ?_) fun _ _ h => ?_
  · exact hloop.keeps.trans (.of_eq h.1)
  · exact hloop.keeps.trans (.of_eq h)

end Descent

end Downhill
