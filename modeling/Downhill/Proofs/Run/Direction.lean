import Downhill.Proofs.Evaluation.Tracking
import Downhill.Proofs.Search.FirstShift

/-! # Directions of a rule

What a rule makes of a point and its gradient: a direction, a refusal that names the iteration, or
a fault. At most one Hessian is evaluated for it, and a refusal leaves the carried shift alone.
-/

namespace Downhill

open Session

variable {σ α : Type} [Scalar α] [Kernel α]

namespace Stabiliser

/-! ## Newton's direction -/

section Newton

omit [Kernel α]

variable {solve : Vec α → Except Fault (Vec α)} {gradient : Vec α} {regularisation : α}

theorem newton_ok {d : Direction α} (h : newton solve gradient regularisation = .ok d) :
    solve gradient.neg = .ok d.vector ∧ d.regularisation = regularisation := by
  unfold newton at h
  split at h
  · contradiction
  · rename_i vector hvector
    cases h
    exact ⟨hvector, rfl⟩

theorem newton_stop {stop : Stop α} (h : newton solve gradient regularisation = .error stop) :
    ∃ fault, solve gradient.neg = .error fault ∧ stop = .fault fault := by
  unfold newton at h
  split at h
  · rename_i fault hfault
    cases h
    exact ⟨fault, hfault, rfl⟩
  · contradiction

theorem newton_ne_error (solve : Vec α → Except Fault (Vec α)) (gradient : Vec α)
    (regularisation : α) (error : SolverError α) :
    newton solve gradient regularisation ≠ .error (.error error) := by
  intro h
  obtain ⟨fault, -, hstop⟩ := newton_stop h
  cases hstop

end Newton

/-! ## The eigenvalue floor -/

/-- What becomes of a Hessian whose eigenvalues are raised to a floor: an outcome, and the reports
on the way. -/
inductive FloorsTo (floor : α) (hessian : Matrix α) (gradient : Vec α) (iteration : Nat) :
    Except (Stop α) (Direction α) × Array (Event α) → Prop
  /-- The spectrum cannot be had, or not put together again. -/
  | broken {fault : Fault} : Projection.ofMatrix hessian floor = .error fault →
      FloorsTo floor hessian gradient iteration (.error (.fault fault), #[])
  /-- The projected matrix is not square. -/
  | misshapen {projection : Projection α} {fault : Fault} :
      Projection.ofMatrix hessian floor = .ok projection →
      projection.matrix.solver? = .error fault →
      FloorsTo floor hessian gradient iteration
        (.error (.fault fault), clampEvents projection iteration)
  /-- The projected matrix is not positive definite. -/
  | refused {projection : Projection α} : Projection.ofMatrix hessian floor = .ok projection →
      projection.matrix.solver? = .ok none →
      FloorsTo floor hessian gradient iteration
        (.error (.error (.hessianNotPositiveDefinite iteration)), clampEvents projection iteration)
  /-- The projected matrix takes the place of the Hessian. -/
  | solved {projection : Projection α} {solve : Vec α → Except Fault (Vec α)} :
      Projection.ofMatrix hessian floor = .ok projection →
      projection.matrix.solver? = .ok (some solve) →
      FloorsTo floor hessian gradient iteration
        (newton solve gradient (projection.lift floor), clampEvents projection iteration)

theorem floorDirection_floorsTo (floor : α) (hessian : Matrix α) (gradient : Vec α)
    (iteration : Nat) :
    FloorsTo floor hessian gradient iteration
      (floorDirection floor hessian gradient iteration) := by
  unfold floorDirection
  cases hprojection : Projection.ofMatrix hessian floor with
  | error fault => exact .broken hprojection
  | ok projection =>
      dsimp only
      cases hsolver : projection.matrix.solver? with
      | error fault => exact .misshapen hprojection hsolver
      | ok solver =>
          cases solver with
          | none => exact .refused hprojection hsolver
          | some solve => exact .solved hprojection hsolver

theorem FloorsTo.eq {floor : α} {hessian : Matrix α} {gradient : Vec α} {iteration : Nat}
    {ended : Except (Stop α) (Direction α) × Array (Event α)}
    (h : FloorsTo floor hessian gradient iteration ended) :
    floorDirection floor hessian gradient iteration = ended := by
  cases h with
  | broken hprojection => simp only [floorDirection, hprojection]
  | misshapen hprojection hsolver => simp only [floorDirection, hprojection, hsolver]
  | refused hprojection hsolver => simp only [floorDirection, hprojection, hsolver]
  | solved hprojection hsolver => simp only [floorDirection, hprojection, hsolver]

end Stabiliser

/-! ## Refusals -/

/-- `error` says that no direction was found in the given iteration. -/
def RefusesAt (iteration : Nat) (error : SolverError α) : Prop :=
  error = .hessianNotPositiveDefinite iteration ∨
    ∃ delta maxDelta, error = .regularisationOverflow delta maxDelta iteration

namespace Stabiliser

theorem FloorsTo.error {floor : α} {hessian : Matrix α} {gradient : Vec α} {iteration : Nat}
    {ended : Except (Stop α) (Direction α) × Array (Event α)} {error : SolverError α}
    (hended : FloorsTo floor hessian gradient iteration ended)
    (h : ended.1 = .error (.error error)) : error = .hessianNotPositiveDefinite iteration := by
  cases hended with
  | broken => cases h
  | misshapen => cases h
  | refused =>
      cases h
      rfl
  | solved => exact absurd h (newton_ne_error _ _ _ _)

theorem direction_error {stabiliser : Stabiliser α} {attempts iteration : Nat}
    {carried : Option α} {hessian : Matrix α} {gradient : Vec α} {error : SolverError α}
    (h : (stabiliser.direction attempts carried hessian gradient iteration).outcome =
      .error (.error error)) :
    RefusesAt iteration error ∧
      (stabiliser.direction attempts carried hessian gradient iteration).carried = carried := by
  cases stabiliser with
  | diagonalShift config =>
      obtain ⟨k, -, -, heq⟩ := shiftDirection_refused h
      rw [direction, heq] at h ⊢
      cases h
      exact ⟨.inr ⟨_, _, rfl⟩, rfl⟩
  | eigenvalueFloor floor => exact ⟨.inl ((floorDirection_floorsTo _ _ _ _).error h), rfl⟩

end Stabiliser

/-! ## Directions found -/

/-- `d` solves a system that was not refused, with the negated gradient on the right. -/
def SolvesSystem (gradient d : Vec α) : Prop :=
  ∃ (m : Matrix α) (solve : Vec α → Except Fault (Vec α)),
    m.solver? = .ok (some solve) ∧ solve gradient.neg = .ok d

namespace Stabiliser

theorem solution_ok {m : Matrix α} (hsquare : m.isSquare = true)
    {solve : Vec α → Vec α} (hfactor : Kernel.factorise m = some solve) {gradient : Vec α}
    {regularisation : α} {d : Direction α}
    (h : solution solve m.height gradient regularisation = .ok d) :
    SolvesSystem gradient d.vector := by
  refine ⟨m, _, by rw [Matrix.solver?, if_pos hsquare, hfactor, Option.map_some], ?_⟩
  rw [← newton_of_factor] at h
  exact (newton_ok h).1

theorem ShiftsTo.ok {config : ShiftConfig α} {attempts iteration : Nat} {carried : Option α}
    {hessian : Matrix α} {gradient : Vec α} {ended : Stabilised α} {d : Direction α}
    (hended : ShiftsTo config attempts carried hessian gradient iteration ended)
    (hsquare : hessian.isSquare = true) (h : ended.outcome = .ok d) :
    SolvesSystem gradient d.vector := by
  cases hended with
  | unshifted hfactor => exact solution_ok hsquare hfactor h
  | @shifted k _ _ _ _ _ hfactor =>
      rw [← Matrix.height_shift hessian (shiftAt config carried k)] at h
      exact solution_ok (Matrix.isSquare_shift hsquare _) hfactor h
  | overflow => cases h
  | unsettled => cases h

theorem FloorsTo.ok {floor : α} {hessian : Matrix α} {gradient : Vec α} {iteration : Nat}
    {ended : Except (Stop α) (Direction α) × Array (Event α)} {d : Direction α}
    (hended : FloorsTo floor hessian gradient iteration ended) (h : ended.1 = .ok d) :
    SolvesSystem gradient d.vector := by
  cases hended with
  | broken => cases h
  | misshapen => cases h
  | refused => cases h
  | solved _ hsolver => exact ⟨_, _, hsolver, (newton_ok h).1⟩

theorem direction_ok {stabiliser : Stabiliser α} {attempts iteration : Nat}
    {carried : Option α} {hessian : Matrix α} {gradient : Vec α} {d : Direction α}
    (h : (stabiliser.direction attempts carried hessian gradient iteration).outcome = .ok d) :
    SolvesSystem gradient d.vector := by
  cases stabiliser with
  | diagonalShift config =>
      by_cases hsquare : hessian.isSquare = true
      · exact (shiftDirection_shiftsTo hsquare _ _ _ _ _).ok hsquare h
      · rw [direction, shiftDirection_of_not_square hsquare] at h
        cases h
  | eigenvalueFloor floor => exact (floorDirection_floorsTo _ _ _ _).ok h

end Stabiliser

/-- A direction goes against the gradient or solves a system for it. -/
theorem Rule.direction_ok {rule : Rule α} {attempts iteration : Nat} {problem : Objective σ α}
    {x gradient : Vec α} {s s' : Session σ α} {d : Direction α}
    (h : rule.direction attempts problem x gradient iteration s = (.ok d, s')) :
    d.vector = gradient.neg ∨ SolvesSystem gradient d.vector := by
  cases rule with
  | steepest =>
      cases h
      exact .inl rfl
  | newton =>
      refine .inr ?_
      obtain ⟨hessian, s₁, -, h⟩ := bind_ok h
      obtain ⟨solver, s₂, hsolver, h⟩ := bind_ok h
      cases solver with
      | none => cases h
      | some solve =>
          obtain ⟨vector, s₃, hvector, h⟩ := bind_ok h
          cases h
          exact ⟨hessian, solve, settle_ok hsolver, settle_ok hvector⟩
  | stabilised stabiliser =>
      refine .inr ?_
      obtain ⟨hessian, s₁, -, h⟩ := bind_ok h
      obtain ⟨s₂, s₃, -, h⟩ := bind_ok h
      rw [take_apply] at h
      exact Stabiliser.direction_ok (congrArg Prod.fst h)

/-! ## Answers -/

namespace Rule

variable {f : Answers α} {attempts iteration : Nat} {carried : Option α} {x gradient : Vec α}

/-- The direction of a rule, and what it leaves behind in a session that only carries a shift. -/
def answer (rule : Rule α) (attempts : Nat) (f : Answers α) (carried : Option α)
    (x gradient : Vec α) (iteration : Nat) :
    Except (Stop α) (Direction α) × Session (List (Call α)) α :=
  rule.direction attempts f.traced x gradient iteration (bare carried)

theorem answer_steepest :
    (steepest : Rule α).answer attempts f carried x gradient iteration =
      (.ok ⟨gradient.neg, 0.0⟩, bare carried) := rfl

/-- What plain Newton makes of a Hessian. -/
def newtonOutcome (hessian : Matrix α) (gradient : Vec α) (iteration : Nat) :
    Except (Stop α) (Direction α) :=
  match hessian.solver? with
  | .error fault => .error (.fault fault)
  | .ok none => .error (.error (.hessianNotPositiveDefinite iteration))
  | .ok (some solve) => Stabiliser.newton solve gradient 0.0

theorem answer_newton :
    (newton : Rule α).answer attempts f carried x gradient iteration =
      (match f.hessian x with
        | .error fault => .error (.fault fault)
        | .ok hessian => newtonOutcome hessian gradient iteration,
        { bare carried with objective := [.hessian x] }) := by
  simp only [answer, direction, bind_apply, evaluate, Answers.traced]
  cases f.hessian x with
  | error fault => rfl
  | ok hessian =>
      simp only [newtonOutcome]
      cases hessian.solver? with
      | error fault => rfl
      | ok solver =>
          cases solver with
          | none => rfl
          | some solve =>
              simp only [Stabiliser.newton, settle_ok_apply, bind_apply]
              cases solve gradient.neg with
              | error fault => rw [settle_error_apply]; rfl
              | ok vector => rfl

theorem answer_stabilised (stabiliser : Stabiliser α) :
    (stabilised stabiliser).answer attempts f carried x gradient iteration =
      match f.hessian x with
        | .error fault => (.error (.fault fault), { bare carried with objective := [.hessian x] })
        | .ok hessian =>
            let found := stabiliser.direction attempts carried hessian gradient iteration
            (found.outcome, ⟨[.hessian x], found.carried, #[], found.events⟩) := by
  simp only [answer, direction, bind_apply, evaluate, Answers.traced]
  cases f.hessian x with
  | error fault => rfl
  | ok hessian =>
      change take (stabiliser.direction attempts carried hessian gradient iteration) _ = _
      rw [take_apply]
      simp [bare]

theorem answer_views (rule : Rule α) :
    (rule.answer attempts f carried x gradient iteration).2.views = #[] := by
  cases rule with
  | steepest => rfl
  | newton => rw [answer_newton]; rfl
  | stabilised stabiliser =>
      rw [answer_stabilised]
      split <;> rfl

/-- A rule looks at the shift that a session carries and at nothing else in it. -/
theorem direction_eq_answer (rule : Rule α) (s : Session (List (Call α)) α) :
    rule.direction attempts f.traced x gradient iteration s =
      let answer := rule.answer attempts f s.carried x gradient iteration
      (answer.1, {
        objective := s.objective ++ answer.2.objective
        carried := answer.2.carried
        views := s.views
        log := s.log ++ answer.2.log }) := by
  have h := mirrors_direction (f.traced_gives.mirrored s.objective) s rule attempts x gradient
    iteration (bare s.carried)
  rw [onto_replay, resume_bare] at h
  rw [h]
  simp only [resume, f.replay_traced]
  rw [← answer, answer_views, Array.append_empty]

/-- What a rule evaluates at `x`. -/
def hessianCalls (rule : Rule α) (x : Vec α) : List (Call α) :=
  match rule with
  | .steepest => []
  | .newton => [.hessian x]
  | .stabilised _ => [.hessian x]

theorem answer_objective (rule : Rule α) :
    (rule.answer attempts f carried x gradient iteration).2.objective = rule.hessianCalls x := by
  cases rule with
  | steepest => rfl
  | newton => rw [answer_newton]; rfl
  | stabilised stabiliser =>
      rw [answer_stabilised]
      split <;> rfl

theorem answer_gradientPoints (rule : Rule α) :
    (rule.answer attempts f carried x gradient iteration).2.objective.filterMap
      Call.gradientPoint? = [] := by
  rw [answer_objective]
  cases rule <;> rfl

/-- A refusal names the iteration and leaves the carried shift alone. -/
theorem answer_error {rule : Rule α} {error : SolverError α}
    (h : (rule.answer attempts f carried x gradient iteration).1 = .error (.error error)) :
    RefusesAt iteration error ∧
      (rule.answer attempts f carried x gradient iteration).2.carried = carried := by
  cases rule with
  | steepest => simp [answer_steepest] at h
  | newton =>
      rw [answer_newton] at h ⊢
      refine ⟨?_, rfl⟩
      split at h
      · simp at h
      · unfold newtonOutcome at h
        split at h
        · simp at h
        · exact .inl (by simpa using h.symm)
        · exact absurd h (Stabiliser.newton_ne_error _ _ _ _)
  | stabilised stabiliser =>
      rw [answer_stabilised] at h ⊢
      split at h
      · simp at h
      · exact Stabiliser.direction_error h

end Rule

end Downhill
