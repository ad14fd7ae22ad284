import Downhill.Proofs.Evaluation.Recording
import Downhill.Proofs.Run.Stages

/-! # Transparency of the recorder

A recorder answers as the objective inside does wherever that objective has a value, and a solve
stays among the points of its dimension. So it goes the same way with a recorder around the
objective as without, and what the recorder had recorded before makes no difference but for the
numbers it goes on from.
-/

namespace Downhill

open Session Descent

variable {σ α : Type}

/-! ## Objectives that agree -/

/-- The objectives are the same, except that gradients may differ at points of another
dimension. -/
structure Objective.Agree (problem other : Objective σ α) : Prop where
  unknowns : problem.unknowns = other.unknowns
  value : problem.value = other.value
  gradient : ∀ x, x.length = problem.unknowns → problem.gradient x = other.gradient x
  hessian : problem.hessian = other.hessian

section Agree

variable [Scalar α] {problem other : Objective σ α} (h : problem.Agree other)
  {x : Vec α} {state : Convergence α}

include h

theorem look_congr (hx : x.length = problem.unknowns) :
    look problem x state = look other x state := by
  unfold look
  rw [h.gradient x hx]

omit [Scalar α] in
theorem conclude_congr : conclude problem x state = conclude other x state := by
  unfold conclude
  rw [h.value]

variable [Kernel α] {rule : Rule α} {attempts : Nat} {config : SearchConfig α}

theorem direction_congr (gradient : Vec α) (iteration : Nat) :
    rule.direction attempts problem x gradient iteration =
      rule.direction attempts other x gradient iteration := by
  cases rule with
  | steepest => rfl
  | newton =>
      unfold Rule.direction
      rw [h.hessian]
  | stabilised stabiliser =>
      unfold Rule.direction
      rw [h.hessian]

theorem step_congr (gradient : Vec α) :
    step rule attempts problem config x gradient state =
      step rule attempts other config x gradient state := by
  unfold step
  simp only [direction_congr h, LineSearch.backtracking_congr h.value]

/-- A step does not leave the points of its dimension, so the rest of a run is the same. -/
theorem remainder_congr (n : Nat) (hx : x.length = problem.unknowns)
    (hpending : state.converged = false) (s : Session σ α) :
    (loop rule attempts problem config n x state >>= closing problem) s =
      (loop rule attempts other config n x state >>= closing other) s := by
  induction n generalizing x state s with
  | zero =>
      rw [remainder_zero x hpending, remainder_zero x hpending, look_congr h hx]
      simp only [conclude_congr h]
  | succ n ih =>
      rw [remainder_succ, remainder_succ, look_congr h hx]
      apply bind_congr_of_ok
      intro looked s₁ hlook
      by_cases hconverged : looked.2.converged
      · rw [if_pos hconverged, if_pos hconverged, conclude_congr h]
      · rw [if_neg hconverged, if_neg hconverged, step_congr h]
        apply bind_congr_of_ok
        intro next s₂ hstep
        have hnext : next.length = x.length := ((step_shows s₁).answer hstep).1
        exact ih (hnext.trans hx) (by simpa [Convergence.advance] using hconverged) s₂

theorem solve_congr (config : SolverConfig α) (x0 : Vec α) (s : Session σ α) :
    solve rule attempts problem config x0 s = solve rule attempts other config x0 s := by
  have hopening : opening rule problem config x0 = opening rule other config x0 := by
    unfold opening
    rw [h.unknowns]
  rw [solve_eq_stages, solve_eq_stages, ← hopening]
  apply bind_congr_of_ok
  intro _ s₁ hopened
  have hadmissible := ((opening_spec s).answer hopened).1
  exact remainder_congr h _ hadmissible.dimension rfl s₁

end Agree

/-! ## What a recorder adds -/

/-- The observation with a number that counts `k` earlier ones. -/
def Observation.later {α : Type} (k : Nat) (seen : Observation α) : Observation α :=
  { seen with iteration := k + seen.iteration }

/-- `after` holds what `before` held and then what `fresh`, which started empty, holds. -/
structure Recorder.Adds (before fresh after : Recorder σ α) : Prop where
  values : after.valueEvaluations = before.valueEvaluations + fresh.valueEvaluations
  gradients : after.gradientEvaluations = before.gradientEvaluations + fresh.gradientEvaluations
  hessians : after.hessianEvaluations = before.hessianEvaluations + fresh.hessianEvaluations
  observations : after.observations = before.observations ++
    fresh.observations.map (Observation.later before.observations.size)

theorem numbered_later (k : Nat) (readings : List (α × α)) :
    numbered k readings = (numbered 0 readings).map (Observation.later k) := by
  apply List.ext_getElem <;> simp [numbered, Observation.later]

variable [Scalar α] {problem : Objective σ α} {f : Answers α}

/-- The same evaluations add the same to whatever was recorded before. -/
theorem adds_replay (h : problem.Gives f) (r : Recorder σ α) (o : σ) (calls : List (Call α)) :
    r.Adds ((Recorder.objective problem).replay (.start o) calls)
      ((Recorder.objective problem).replay r calls) := by
  have hcounts : r.Counts calls ((Recorder.objective problem).replay r calls) :=
    counts_replay r calls
  have hfresh : (Recorder.start o).Counts calls
      ((Recorder.objective problem).replay (.start o) calls) := counts_replay _ calls
  refine ⟨?_, ?_, ?_, ?_⟩
  · rw [hcounts.values, hfresh.values]
    simp [Recorder.start]
  · rw [hcounts.gradients, hfresh.gradients]
    simp [Recorder.start]
  · rw [hcounts.hessians, hfresh.hessians]
    simp [Recorder.start]
  · apply Array.toList_inj.mp
    rw [Array.toList_append, Array.toList_map, observations_replay h, observations_replay h,
      numbered_later]
    simp [Recorder.start]

/-! ## Solves -/

omit [Scalar α] in
/-- Where values have answers, the answers of a recorder are those of the objective inside. -/
theorem recorded_agree (hvalues : ∀ x, x.length = f.unknowns → ∃ value, f.value x = .ok value) :
    f.recorded.traced.Agree f.traced := by
  refine ⟨rfl, rfl, fun x hx => ?_, rfl⟩
  obtain ⟨value, hvalue⟩ := hvalues x hx
  have hgradient : f.recorded.gradient x = f.gradient x := by
    simp only [Answers.recorded, hvalue]
    cases f.gradient x <;> rfl
  funext calls
  simp only [Answers.traced, hgradient]

/-- A solve has the same result, views and log with a recorder around the objective as without,
whatever the recorder held before; and it adds to the recorder what it leaves in an empty one. -/
theorem solve_transparent [Kernel α] (h : problem.Gives f)
    (hvalues : ∀ x, x.length = f.unknowns → ∃ value, f.value x = .ok value) (rule : Rule α)
    (attempts : Nat) (config : SolverConfig α) (x0 : Vec α) (inherited : Option α)
    (r : Recorder σ α) (o : σ) :
    let recorded := solve rule attempts (Recorder.objective problem) config x0
      (.start r inherited)
    let fresh := solve rule attempts (Recorder.objective problem) config x0
      (.start (.start o) inherited)
    let plain := solve rule attempts problem config x0 (.start o inherited)
    recorded.1 = plain.1 ∧ recorded.2.views = plain.2.views ∧ recorded.2.log = plain.2.log ∧
      r.Adds fresh.2.objective recorded.2.objective := by
  have hplain := solve_eq_resume h rule attempts config x0 (.start o inherited)
  have hrecorded (r : Recorder σ α) :=
    solve_eq_resume (recorder_gives h) rule attempts config x0 (.start r inherited)
  simp only [solve_congr (recorded_agree hvalues)] at hrecorded
  rw [hplain, hrecorded r, hrecorded (.start o)]
  exact ⟨rfl, rfl, rfl, adds_replay h r o _⟩

theorem Saddle.exists_value (p : Saddle α) {x : Vec α} (hx : x.length = p.unknowns) :
    ∃ value, p.value x = .ok value :=
  match x, hx with
  | [_, _], _ => ⟨_, rfl⟩

/-- A run on the saddle, with a recorder that has seen something else before. -/
theorem saddle_transparent :
    ∃ solution session,
      solve (.stabilised (.shiftByGamma 10.0)) 100 ((Problem.saddle .default).objective Unit)
        ⟨1e-4, 10, .default⟩ [0.5, 0.2] (.start ()) = (.ok solution, session) ∧
      let seen : Recorder Unit Float := ⟨(), 7, 3, 2, #[⟨0, 1.5, 2.0⟩]⟩
      let run := solve (.stabilised (.shiftByGamma 10.0)) 100
        (Recorder.objective ((Problem.saddle (.default : Saddle Float)).objective Unit))
        ⟨1e-4, 10, .default⟩ [0.5, 0.2]
      let recorded := run (.start seen)
      let fresh := run (.start (.start ()))
      recorded.1 = .ok solution ∧ recorded.2.views = session.views ∧
        recorded.2.log = session.log ∧ seen.Adds fresh.2.objective recorded.2.objective := by
  obtain ⟨solution, session, hrun, -⟩ := exists_of_answersWith
    (solve (.stabilised (.shiftByGamma 10.0)) 100 ((Problem.saddle .default).objective Unit)
      ⟨1e-4, 10, .default⟩ [0.5, 0.2]) (.start ()) (fun _ _ => true) (by decide +kernel)
  obtain ⟨hresult, hviews, hlog, hadds⟩ := solve_transparent
    (Problem.objective_gives (.saddle (.default : Saddle Float)))
    (fun _ => Saddle.exists_value .default) (.stabilised (.shiftByGamma 10.0)) 100
    ⟨1e-4, 10, .default⟩ [0.5, 0.2] none ⟨(), 7, 3, 2, #[⟨0, 1.5, 2.0⟩]⟩ ()
  rw [hrun] at hresult hviews hlog
  exact ⟨solution, session, hrun, hresult, hviews, hlog, hadds⟩

end Downhill
