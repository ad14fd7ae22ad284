import Downhill.Proofs.Number.Squares
import Downhill.Proofs.Run.Counting
import Downhill.Proofs.Run.Invariant

/-! # Gradients that are not finite

A run stops for a gradient whose norm is not finite exactly if it comes to a point with such a
gradient. In particular nothing else keeps it from noticing: what can fault at a point comes before
the gradient is known or after it has been found finite.
-/

namespace Downhill

open Session Descent

variable {σ α : Type} [Scalar α]

/-- If the gradient at the point that the views lead to is known, its norm is finite. -/
def Tame (f : Answers α) (x0 : Vec α) (views : List (View α)) : Prop :=
  ∀ x gradient, reached x0 views = .ok x → f.gradient x = .ok gradient →
    Scalar.isFinite gradient.normSq = true

/-- Faults leave a run at tame points only. -/
def FaultsTame (f : Answers α) (x0 : Vec α) (stop : Stop α)
    (s : Session (List (Call α)) α) : Prop :=
  ∀ fault, stop = .fault fault → Tame f x0 s.views.toList

section Tame

variable {f : Answers α} {x0 : Vec α} {views : List (View α)}

theorem tame_of_gradient {x gradient : Vec α} (harrived : reached x0 views = .ok x)
    (hgradient : f.gradient x = .ok gradient)
    (hfinite : Scalar.isFinite gradient.normSq = true) : Tame f x0 views := by
  intro x' gradient' harrived' hgradient'
  obtain rfl : x = x' := Except.ok.inj (harrived.symm.trans harrived')
  obtain rfl : gradient = gradient' := Except.ok.inj (hgradient.symm.trans hgradient')
  exact hfinite

theorem tame_of_error {x : Vec α} {fault : Fault} (harrived : reached x0 views = .ok x)
    (hgradient : f.gradient x = .error fault) : Tame f x0 views := by
  intro x' gradient' harrived' hgradient'
  obtain rfl : x = x' := Except.ok.inj (harrived.symm.trans harrived')
  rw [hgradient] at hgradient'
  contradiction

theorem tame_of_astray {fault : Fault} (hastray : reached x0 views = .error fault) :
    Tame f x0 views := by
  intro x' gradient' harrived' _
  rw [hastray] at harrived'
  contradiction

end Tame

/-- The views lead to `x` in `i` steps. -/
structure Reaches (x0 : Vec α) (views : List (View α)) (i : Nat) (x : Vec α) : Prop where
  shown : i ≤ views.length
  arrived : reached x0 (views.take i) = .ok x

theorem Reaches.last {views : List (View α)} {x : Vec α} (h : reached x0 views = .ok x) :
    Reaches x0 views views.length x :=
  ⟨Nat.le_refl _, by rwa [List.take_length]⟩

/-- The views lead to a point where the norm of the gradient is known, but not finite. -/
def Overflows (f : Answers α) (x0 : Vec α) (views : List (View α)) (i : Nat) : Prop :=
  ∃ x gradient, Reaches x0 views i x ∧ f.gradient x = .ok gradient ∧
    Scalar.isFinite gradient.normSq = false

/-! ## The parts of a run -/

variable [Kernel α] {f : Answers α} {rule : Rule α} {attempts : Nat} {config : SolverConfig α}
  {x0 : Vec α} {inherited : Option α}

theorem Looked.tame {s : Session (List (Call α)) α} {x gradient : Vec α} {state : Convergence α}
    (h : Looked f rule attempts config x0 inherited s x gradient state) :
    Tame f x0 s.views.toList :=
  tame_of_gradient h.arrived h.gradient_eq h.finite

namespace Descent

theorem look_faultsTame {s : Session (List (Call α)) α} {x : Vec α} {state : Convergence α}
    (h : Underway f rule attempts config x0 inherited s x state) :
    Ends (look f.traced x state) s (fun _ _ => True) (fun stop s' => FaultsTame f x0 stop s') := by
  refine .bind (ends_evaluate (ends_gradient (fun gradient _ => ?_) fun fault hfault => ?_))
  · dsimp only
    split
    · exact .pure trivial
    · exact ends_fail nofun
  · exact fun _ _ => tame_of_error h.arrived hfault

theorem step_faultsTame {s : Session (List (Call α)) α} {x gradient : Vec α}
    {state : Convergence α} (h : Looked f rule attempts config x0 inherited s x gradient state) :
    Ends (step rule attempts f.traced config.lineSearch x gradient state) s (fun _ _ => True)
      (fun stop s' => FaultsTame f x0 stop s') := by
  refine .bind (direction_ends rfl (fun d _ => ?_) fun _ _ _ _ => h.tame)
  refine .bind (ends_evaluate (LineSearch.search_ends (fun outcome _ => ?_)
    fun _ _ _ _ => h.tame))
  refine .bind (ends_reportAll (.bind (ends_report (.bind (ends_present ?_)))))
  refine ends_settle (fun _ _ => trivial) fun fault hfault _ _ => ?_
  exact tame_of_astray (by simpa using hfault)

theorem loop_faultsTame (remaining : Nat) {s : Session (List (Call α)) α} {x : Vec α}
    {state : Convergence α} (h : Underway f rule attempts config x0 inherited s x state) :
    Ends (loop rule attempts f.traced config.lineSearch remaining x state) s
      (fun _ _ => True) (fun stop s' => FaultsTame f x0 stop s') := by
  induction remaining generalizing s x state with
  | zero => exact .pure trivial
  | succ remaining ih =>
      refine .bind (((look_ends h).and (look_faultsTame h)).imp (fun looked s₁ hlooked => ?_)
        fun _ _ hstop => hstop.2)
      obtain ⟨⟨hlooked, -⟩, -⟩ := hlooked
      dsimp only
      split
      · exact .pure trivial
      · rename_i hpending
        have hstep := step_ends hlooked (by simpa using hpending)
        exact .bind ((hstep.and (step_faultsTame hlooked)).imp
          (fun next s₂ hnext => ih hnext.1.1) fun _ _ hstop => hstop.2)

theorem conclude_faultsTame {s : Session (List (Call α)) α} {x gradient : Vec α}
    {state : Convergence α} (h : Looked f rule attempts config x0 inherited s x gradient state) :
    Ends (conclude f.traced x state) s (fun _ _ => True)
      (fun stop s' => FaultsTame f x0 stop s') :=
  .bind (ends_report (.bind (ends_evaluation (fun _ _ _ => .pure trivial)
    fun _ _ _ _ _ => h.tame)))

theorem closing_faultsTame {limit : Nat} {s : Session (List (Call α)) α}
    {halted : Vec α × Convergence α}
    (h : Halted f rule attempts config x0 inherited limit s halted) :
    Ends (closing f.traced halted) s (fun _ _ => True)
      (fun stop s' => FaultsTame f x0 stop s') := by
  cases h with
  | converged hlooked hconverged hsize =>
      rw [closing_of_converged _ _ hconverged]
      exact conclude_faultsTame hlooked
  | capped hunderway hsize =>
      rw [closing_of_pending _ _ hunderway.pending]
      exact .bind (((look_ends hunderway).and (look_faultsTame hunderway)).imp
        (fun looked s' hlooked => conclude_faultsTame hlooked.1.1) fun _ _ hstop => hstop.2)

end Descent

theorem solve_faultsTame (h : Admissible rule config f.unknowns x0) :
    Ends (solve rule attempts f.traced config x0) (.start [] inherited) (fun _ _ => True)
      (fun stop s => FaultsTame f x0 stop s) := by
  obtain ⟨log, hsolve⟩ := @solve_of_admissible _ α _ _ rule attempts f.traced config x0 h
    (.start [] inherited)
  unfold Ends
  rw [hsolve]
  have hstart : Underway f rule attempts config x0 inherited
      { (.start [] inherited : Session (List (Call α)) α) with log } x0 (.start config) :=
    start_underway rfl rfl rfl
  exact Ends.bind (((loop_ends config.maxIterations hstart).and
    (loop_faultsTame config.maxIterations hstart)).imp
      (fun halted s hhalted => closing_faultsTame hhalted.1) fun _ _ hstop => hstop.2)

/-! ## The error -/

section Overflows

variable {views : List (View α)} {i : Nat} (h : Overflows f x0 views i)

include h

/-- A run does not pass a point with such a gradient. -/
theorem Overflows.length_eq (hchronicle : Chronicle f rule attempts config x0 inherited views) :
    views.length = i := by
  obtain ⟨x, gradient, ⟨hshown, harrived⟩, hgradient, hinfinite⟩ := h
  rcases Nat.lt_or_eq_of_le hshown with hlt | heq
  · have hview : views[i]? = some views[i] := List.getElem?_eq_getElem hlt
    have hunsettled := (hchronicle.shown i _ hview).unsettled
    have hstands := hchronicle.stands i _ hview
    rw [harrived] at hstands
    obtain rfl : x = views[i].x := Except.ok.inj hstands
    obtain rfl : gradient = views[i].gradient :=
      Except.ok.inj (hgradient.symm.trans hunsettled.gradient_eq)
    rw [hunsettled.finite] at hinfinite
    contradiction
  · exact heq.symm

theorem Overflows.not_tame (hchronicle : Chronicle f rule attempts config x0 inherited views) :
    ¬ Tame f x0 views := by
  have hlength := h.length_eq hchronicle
  obtain ⟨x, gradient, ⟨-, harrived⟩, hgradient, hinfinite⟩ := h
  rw [← hlength, List.take_length] at harrived
  intro htame
  rw [htame x gradient harrived hgradient] at hinfinite
  contradiction

end Overflows

section Error

variable {problem : Objective σ α} {o : σ} {result : Except (Stop α) (Solution α)}
  {session : Session σ α} {i : Nat} (h : problem.Gives f)
  (hrun : solve rule attempts problem config x0 (.start o inherited) = (result, session))

include h hrun

theorem overflows_of_nonFinite (hresult : result = .error (.error (.nonFiniteGradient i))) :
    Admissible rule config problem.unknowns x0 ∧ Overflows f x0 session.views.toList i := by
  subst hresult
  have hstart : Admissible rule config problem.unknowns x0 := by
    refine Classical.byContradiction fun hrefused => ?_
    obtain ⟨-, error, hrejects, heq⟩ := views_of_not_admissible hrun hrefused
    obtain rfl : .nonFiniteGradient i = error := by simpa using heq
    cases hrejects
  obtain ⟨calls, -, hfailed⟩ := solve_failed h hstart hrun
  refine ⟨hstart, ?_⟩
  generalize hstop : Stop.error (.nonFiniteGradient i) = stop at hfailed
  cases hfailed with
  | nonFinite hat hgradient hinfinite =>
      obtain rfl : i = session.views.size := by simpa using hstop
      exact ⟨_, _, .last hat.arrived, hgradient, hinfinite⟩
  | refused _ _ hrefused =>
      obtain ⟨hrefuses, -⟩ := Rule.answer_error hrefused
      rcases hrefuses with rfl | ⟨delta, maxDelta, rfl⟩ <;> simp at hstop
  | fault _ => simp at hstop

theorem nonFinite_of_overflows (hstart : Admissible rule config problem.unknowns x0)
    (hoverflows : Overflows f x0 session.views.toList i) :
    result = .error (.error (.nonFiniteGradient i)) := by
  have hchronicle := solve_chronicle h hrun
  have hlength := hoverflows.length_eq hchronicle
  have hwild := hoverflows.not_tame hchronicle
  cases result with
  | ok solution =>
      obtain ⟨calls, -, hfinished⟩ := solve_finished h hrun
      obtain ⟨gradient, hgradient, hnorm⟩ := hfinished.gradient_eq
      exact absurd (tame_of_gradient hfinished.arrived hgradient (hnorm ▸ hfinished.finite)) hwild
  | error stop =>
      obtain ⟨calls, -, htraced⟩ := exists_calls h hrun
      have hstart' : Admissible rule config f.unknowns x0 := h.unknowns ▸ hstart
      have hfailed := (solve_ends hstart').stop htraced
      cases hfailed with
      | nonFinite hat hgradient hinfinite => rw [← hlength]; rfl
      | refused hat hunsettled _ =>
          exact absurd (tame_of_gradient hat.arrived hunsettled.gradient_eq hunsettled.finite) hwild
      | fault _ =>
          exact absurd ((solve_faultsTame hstart').stop htraced _ rfl) hwild

/-- A solve reports a gradient that is not finite exactly at a point, reached within the cap, where
the norm of the gradient is not. -/
theorem nonFinite_iff_overflows : result = .error (.error (.nonFiniteGradient i)) ↔
    Admissible rule config problem.unknowns x0 ∧ i ≤ config.maxIterations ∧
      Overflows f x0 session.views.toList i := by
  constructor
  · intro hresult
    obtain ⟨hstart, hoverflows⟩ := overflows_of_nonFinite h hrun hresult
    refine ⟨hstart, ?_, hoverflows⟩
    have hwithin := @solve_within _ α _ problem _ rule attempts config x0 inherited o
    rw [hrun] at hwithin
    have hlength := hoverflows.length_eq (solve_chronicle h hrun)
    exact hlength ▸ hwithin
  · rintro ⟨hstart, -, hoverflows⟩
    exact nonFinite_of_overflows h hrun hstart hoverflows

end Error

/-! ## Doubles -/

/-- In double precision, a solve reports a gradient that is not finite exactly at a point, reached
within the cap, where a component of the gradient is not finite or where the sum of the squares of
finite components overflows. -/
theorem solve_nonFinite_iff {rule : Rule Float} {config : SolverConfig Float} {x0 : Vec Float}
    {inherited : Option Float} {problem : Objective σ Float} {f : Answers Float}
    (h : problem.Gives f) {o : σ} {result : Except (Stop Float) (Solution Float)}
    {session : Session σ Float}
    (hrun : solve rule attempts problem config x0 (.start o inherited) = (result, session))
    (i : Nat) :
    result = .error (.error (.nonFiniteGradient i)) ↔
      Admissible rule config problem.unknowns x0 ∧ i ≤ config.maxIterations ∧
        ∃ x gradient, Reaches x0 session.views.toList i x ∧ f.gradient x = .ok gradient ∧
          ((∃ a ∈ gradient, a.isFinite = false) ∨
            (∀ a ∈ gradient, a.isFinite = true) ∧ gradient.normSq = Scalar.infinity) := by
  rw [nonFinite_iff_overflows h hrun]
  unfold Overflows
  simp only [Vec.not_isFinite_normSq_iff]

/-- A parabola whose slope at zero is finite, but has a square that is not. -/
def steep : Problem Float := .quadratic ⟨⟨[[1.0]]⟩, [1e160], rfl, rfl⟩

/-- On the parabola, a run with the default configuration stops at its start. -/
theorem steep_nonFinite_iff :
    ∃ session : Session Unit Float,
      solve .steepest 0 (steep.objective Unit) .default [0.0] (.start ()) =
        (.error (.error (.nonFiniteGradient 0)), session) ∧
      ∃ x gradient, Reaches [0.0] session.views.toList 0 x ∧ steep.gradient x = .ok gradient ∧
        ((∃ a ∈ gradient, a.isFinite = false) ∨
          (∀ a ∈ gradient, a.isFinite = true) ∧ gradient.normSq = Scalar.infinity) := by
  obtain ⟨session, hrun, -⟩ := exists_of_stopsWith
    (solve .steepest 0 (steep.objective Unit) .default [0.0]) (.start ())
    (.error (.nonFiniteGradient 0)) (fun _ => true) (by decide +kernel)
  obtain ⟨-, -, hpoint⟩ := (solve_nonFinite_iff steep.objective_gives hrun 0).mp rfl
  exact ⟨session, hrun, hpoint⟩

/-- A run that looks at one gradient only, all of whose components are finite, may still report a
gradient that is not. -/
theorem steep_overflows :
    let config : SolverConfig Float := { SolverConfig.default with maxIterations := 0 }
    config.validate = .ok () ∧ steep.gradient [0.0] = .ok [-1e160] ∧
      (-1e160 : Float).isFinite = true ∧
      ∃ session : Session Unit Float,
        solve .steepest 0 (steep.objective Unit) config [0.0] (.start ()) =
          (.error (.error (.nonFiniteGradient 0)), session) ∧ session.views = #[] := by
  intro config
  obtain ⟨session, hrun, hviews⟩ := exists_of_stopsWith
    (solve .steepest 0 (steep.objective Unit) config [0.0]) (.start ())
    (.error (.nonFiniteGradient 0)) (fun session => session.views.isEmpty) (by decide +kernel)
  refine ⟨by decide +kernel, by decide +kernel, by decide +kernel, session, hrun, ?_⟩
  simpa using hviews

end Downhill
