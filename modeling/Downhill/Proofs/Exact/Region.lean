import Mathlib
import Downhill.Proofs.Exact.Quadratic
import Downhill.Proofs.Exact.Smooth
import Downhill.Proofs.Exact.Systems
import Downhill.Proofs.Run.Invariant
import Downhill.Proofs.Search.StepLength
import Downhill.Proofs.Validity

/-! # Regions that runs do not leave

From a first step of at most one, a line search returns a step between nought and one, whatever its
status. A region that is not left by any such step holds the whole run. If the Hessian is positive
definite all over the region, plain Newton is never refused a direction and returns a solution.
-/

open Matrix

namespace Downhill

variable {n : ℕ} {p : Answers ℝ} {f : (Fin n → ℝ) → ℝ} {g : (Fin n → ℝ) → Fin n → ℝ}
  {H : (Fin n → ℝ) → RealMatrix n} {region : (Fin n → ℝ) → Prop}

/-- The coordinates of the point belong to the region. -/
def Inside (region : (Fin n → ℝ) → Prop) (x : Vec ℝ) : Prop :=
  ∃ v : Fin n → ℝ, x = List.ofFn v ∧ region v

variable [Kernel ℝ] {rule : Rule ℝ} {attempts : ℕ} {config : SolverConfig ℝ}

/-! ## Steps -/

/-- Steps along the directions of the rule stay in the region unless they are too long. -/
def Confines (p : Answers ℝ) (g : (Fin n → ℝ) → Fin n → ℝ) (rule : Rule ℝ) (attempts : ℕ)
    (region : (Fin n → ℝ) → Prop) : Prop :=
  ∀ (carried : Option ℝ) (v : Fin n → ℝ) (iteration : ℕ) (d : Direction ℝ), region v →
    (rule.answer attempts p carried (List.ofFn v) (List.ofFn (g v)) iteration).1 = .ok d →
      ∃ y : Fin n → ℝ, d.vector = List.ofFn y ∧ ∀ t : ℝ, 0 < t → t ≤ 1 → region (v + t • y)

theorem Shown.step_unit {carried : Option ℝ} {view : View ℝ}
    (hvalid : config.lineSearch.validate = .ok ()) (hinitial : config.lineSearch.initialStep ≤ 1)
    (h : Shown p rule attempts config carried view) : 0 < view.step ∧ view.step ≤ 1 := by
  obtain ⟨hpos, -, htau⟩ := SearchConfig.validate_ok hvalid
  simp only [inUnitInterval, Bool.and_eq_true, decide_eq_true_eq] at htau
  norm_num at hpos htau
  obtain ⟨outcome, hsearch, hstep, -⟩ := h.searched
  rw [← hstep]
  refine LineSearch.search_step (fun t => 0 < t ∧ t ≤ 1) ⟨hpos, hinitial⟩ ?_ hsearch
  intro t ht
  exact ⟨mul_pos ht.1 htau.1, mul_le_one₀ ht.2 htau.1.le htau.2.le⟩

/-- What a view shows at a point with coordinates `v`. -/
theorem Shown.exists_answer (hcomputes : p.Computes f g H) {carried : Option ℝ} {view : View ℝ}
    (h : Shown p rule attempts config carried view) {v : Fin n → ℝ} (hv : view.x = List.ofFn v) :
    ∃ d : Direction ℝ, d.vector = view.direction ∧ (rule.answer attempts p carried (List.ofFn v)
      (List.ofFn (g v)) view.iteration).1 = .ok d := by
  have hgradient := h.unsettled.gradient_eq
  rw [hv, hcomputes.gradient] at hgradient
  have hdirected := h.directed
  rw [hv, ← Except.ok.inj hgradient] at hdirected
  exact ⟨_, rfl, hdirected⟩

namespace Answers.Computes

variable (hcomputes : p.Computes f g H)

include hcomputes

theorem stepsKeep (hvalid : config.lineSearch.validate = .ok ())
    (hinitial : config.lineSearch.initialStep ≤ 1)
    (hconfines : Confines p g rule attempts region) :
    StepsKeep p rule attempts config (Inside region) := by
  rintro carried view hshown ⟨v, hv, hregion⟩
  obtain ⟨d, hd, hanswer⟩ := hshown.exists_answer hcomputes hv
  obtain ⟨y, hy, hstays⟩ := hconfines carried v view.iteration d hregion hanswer
  obtain ⟨hpos, hle⟩ := hshown.step_unit hvalid hinitial
  refine ⟨List.ofFn (v + view.step • y), ?_, _, rfl, hstays _ hpos hle⟩
  rw [hv, ← hd, hy, Vec.move_ofFn]

end Answers.Computes

/-! ## Relations between points -/

/-- The later point has coordinates that stand in a relation to those of the earlier one. -/
def Later (R : (Fin n → ℝ) → (Fin n → ℝ) → Prop) (x y : Vec ℝ) : Prop :=
  ∃ v : Fin n → ℝ, x = List.ofFn v ∧ Inside (R v) y

/-- If steps along the directions of the rule keep to what stands in a relation to an earlier point,
so does the whole run. -/
theorem Answers.Computes.solve_confined (hcomputes : p.Computes f g H)
    {R : (Fin n → ℝ) → (Fin n → ℝ) → Prop} (hrefl : ∀ v, R v v)
    (hconfines : ∀ start, Confines p g rule attempts (R start))
    (hinitial : config.lineSearch.initialStep ≤ 1) {σ : Type} {problem : Objective σ ℝ}
    (hgives : problem.Gives p) (x0 : Fin n → ℝ) {inherited : Option ℝ} {o : σ}
    {result : Except (Stop ℝ) (Solution ℝ)} {session : Session σ ℝ}
    (hrun : solve rule attempts problem config (List.ofFn x0) (.start o inherited) =
      (result, session)) :
    (∀ i j, i ≤ j → j ≤ session.views.size → ∃ v w : Fin n → ℝ,
      reached (List.ofFn x0) (session.views.toList.take i) = .ok (List.ofFn v) ∧
        reached (List.ofFn x0) (session.views.toList.take j) = .ok (List.ofFn w) ∧
          R v w ∧ R x0 w) ∧
      ∀ solution, result = .ok solution → Inside (R x0) solution.x := by
  have hkeep (hadmissible : Admissible rule config problem.unknowns (List.ofFn x0))
      (start : Fin n → ℝ) : StepsKeep p rule attempts config (Inside (R start)) :=
    hcomputes.stepsKeep (SolverConfig.validate_ok hadmissible.config_valid).2 hinitial
      (hconfines start)
  have hlater (hadmissible : Admissible rule config problem.unknowns (List.ofFn x0)) (x : Vec ℝ) :
      StepsKeep p rule attempts config (Later R x) := by
    intro carried view hshown hlater
    obtain ⟨v, hv, hinside⟩ := hlater
    obtain ⟨next, hnext, hkept⟩ := hkeep hadmissible v carried view hshown hinside
    exact ⟨next, hnext, v, hv, hkept⟩
  have hstart : Inside (R x0) (List.ofFn x0) := ⟨x0, rfl, hrefl x0⟩
  have hself (x : Vec ℝ) (hx : Inside (R x0) x) : Later R x x := by
    obtain ⟨v, rfl, -⟩ := hx
    exact ⟨v, rfl, v, rfl, hrefl v⟩
  obtain ⟨hpoints, hreturned⟩ := solve_keeps hgives (fun h => hkeep h x0) hstart hrun
  refine ⟨?_, hreturned⟩
  intro i j hij hj
  obtain ⟨_, _, hi, hj', v, rfl, w, rfl, hvw⟩ :=
    solve_relates hgives (fun h => hkeep h x0) hstart hrun hself hlater hij hj
  obtain ⟨_, hj'', w', rfl, hw'⟩ := hpoints j hj
  have hsame : w = w' := List.ofFn_injective (Except.ok.inj (hj'.symm.trans hj''))
  exact ⟨v, w, hi, hj', hvw, hsame ▸ hw'⟩

/-! ## Plain Newton -/

/-- The Hessian is positive definite in the region, and no part of Newton's step leads out of it. -/
structure NewtonRegion (g : (Fin n → ℝ) → Fin n → ℝ) (H : (Fin n → ℝ) → RealMatrix n)
    (region : (Fin n → ℝ) → Prop) : Prop where
  posDef : ∀ v, region v → (H v).PosDef
  step : ∀ (v y : Fin n → ℝ) (t : ℝ), region v → H v *ᵥ y = -g v → 0 < t → t ≤ 1 →
    region (v + t • y)

namespace NewtonRegion

variable [ExactFactorisation] (hregion : NewtonRegion g H region) (hcomputes : p.Computes f g H)

include hregion hcomputes

theorem solvesFor {carried : Option ℝ} {v : Fin n → ℝ} {iteration : ℕ} {d : Direction ℝ}
    (hv : region v) (hd : (Rule.newton.answer attempts p carried (List.ofFn v) (List.ofFn (g v))
      iteration).1 = .ok d) : SolvesFor (H v) (g v) d.vector :=
  Rule.newton_solvesFor (by simpa using (hregion.posDef v hv).isHermitian) (hcomputes.hessian v) hd

theorem confines : Confines p g .newton attempts region := by
  intro carried v iteration d hv hd
  obtain ⟨-, y, hy, hsystem⟩ := hregion.solvesFor hcomputes hv hd
  exact ⟨y, hy, fun t hpos hle => hregion.step v y t hv hsystem hpos hle⟩

theorem serves : Serves p .newton attempts config (Inside region) where
  value := by
    rintro x ⟨v, rfl, -⟩
    exact ⟨_, hcomputes.value v⟩
  gradient := by
    rintro x ⟨v, rfl, -⟩
    exact ⟨_, hcomputes.gradient v, rfl⟩
  searched := by
    rintro carried x gradient iteration ⟨v, rfl, hv⟩ hunsettled
    obtain rfl : List.ofFn (g v) = gradient :=
      Except.ok.inj ((hcomputes.gradient v).symm.trans hunsettled.gradient_eq)
    obtain ⟨d, hd⟩ : ∃ d, (Rule.newton.answer attempts p carried (List.ofFn v) (List.ofFn (g v))
        iteration).1 = .ok d :=
      Rule.exists_newton_answer (hregion.posDef v hv) (hcomputes.hessian v) (g v)
    obtain ⟨-, y, hy, -⟩ := hregion.solvesFor hcomputes hv hd
    have hslope : Vec.dot (List.ofFn (g v)) d.vector = .ok (g v ⬝ᵥ y) := by
      rw [hy, Vec.dot_ofFn]
    have hanswered : LineSearch.Answered p (List.ofFn v) d.vector := fun t =>
      ⟨List.ofFn (v + t • y), by rw [hy, Vec.move_ofFn], _, hcomputes.value _⟩
    obtain ⟨outcome, houtcome⟩ := LineSearch.exists_search hslope (hcomputes.value v) hanswered
    exact ⟨d, outcome, hd, houtcome⟩

/-- A plain Newton solve from inside such a region stays there. It is never refused, and with valid
parameters it returns a solution. -/
theorem solve {σ : Type} {problem : Objective σ ℝ} (hgives : problem.Gives p) (x0 : Fin n → ℝ)
    (hstart : region x0) (hinitial : config.lineSearch.initialStep ≤ 1) {inherited : Option ℝ}
    {o : σ} {result : Except (Stop ℝ) (Solution ℝ)} {session : Session σ ℝ}
    (hrun : Downhill.solve .newton attempts problem config (List.ofFn x0) (.start o inherited) =
      (result, session)) :
    (∀ i ≤ session.views.size, ∃ x, reached (List.ofFn x0) (session.views.toList.take i) = .ok x ∧
        Inside region x) ∧
      (∀ solution, result = .ok solution → Inside region solution.x) ∧
      (∀ iteration, result ≠ .error (.error (.hessianNotPositiveDefinite iteration))) ∧
      (config.validate = .ok () → ∃ solution, result = .ok solution) := by
  have hkeep (hconfig : config.validate = .ok ()) :
      StepsKeep p .newton attempts config (Inside region) :=
    hcomputes.stepsKeep (SolverConfig.validate_ok hconfig).2 hinitial
      (hregion.confines hcomputes)
  have hinside : Inside region (List.ofFn x0) := ⟨x0, rfl, hstart⟩
  have hfits : (List.ofFn x0).length = problem.unknowns := by
    rw [List.length_ofFn, hgives.unknowns, hcomputes.unknowns]
  obtain ⟨hpoints, hreturned⟩ :=
    solve_keeps hgives (fun hadmissible => hkeep hadmissible.config_valid) hinside hrun
  obtain ⟨hunrefused, hanswers⟩ :=
    solve_newton_answers hgives (hregion.serves hcomputes) hkeep (fun _ => hinside) hrun
  exact ⟨hpoints, hreturned, hunrefused, fun hconfig => hanswers hconfig hfits⟩

end NewtonRegion

end Downhill
