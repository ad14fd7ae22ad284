import Mathlib
import Downhill.Proofs.Exact.SmallSteps
import Downhill.Proofs.Run.Invariant

/-! # Steps against the gradient of a quadratic

If the curvature of a quadratic is at most `L`, then every step against the gradient up to
`2 * (1 - alpha) / L` is acceptable. A step that was shrunk comes from one that was refused, so it
is no shorter than `tau` times that bound, wherever the search starts.
-/

open Matrix

namespace Downhill

variable {σ : Type} {n : ℕ}

/-! ## Steps of a search -/

namespace SearchConfig

variable {config : SearchConfig ℝ} (h : config.validate = .ok ())

include h

theorem step_le_initialStep (k : ℕ) : config.step k ≤ config.initialStep := by
  obtain ⟨hinitial, -, hpos, hlt⟩ := bounds_of_valid h
  rw [step_eq]
  exact mul_le_of_le_one_right hinitial.le (pow_le_one₀ hpos.le hlt.le)

end SearchConfig

/-- The step is accepted. It is positive, no longer than the first one and, unless it is the first,
no shorter than `least`. -/
structure AcceptsFrom (config : SearchConfig ℝ) (least : ℝ) (status : SearchStatus) (step : ℝ) :
    Prop where
  accepted : status = .accepted
  pos : 0 < step
  le_initialStep : step ≤ config.initialStep
  ge : min config.initialStep least ≤ step

/-- If all steps up to `bound` are acceptable and the cap allows one of them, the search does not
stop short of `tau * bound`. -/
theorem LineSearch.Backtracks.acceptsFrom {value : Vec ℝ → ℝ} {config : SearchConfig ℝ}
    {x d : Vec ℝ} {slope bound : ℝ} {outcome : SearchOutcome ℝ} {looks : List (Vec ℝ)}
    (h : Backtracks value config x d slope outcome looks) (hvalid : config.validate = .ok ())
    (hdown : ¬ (0.0 : ℝ) < slope) (hreached : config.step config.maxShrinks ≤ bound)
    (hshort : ∀ k, config.step k ≤ bound → AcceptableAt value config x d slope k) :
    AcceptsFrom config (config.tau * bound) outcome.status outcome.step := by
  have haccepted := (h.accepted_iff hdown).mpr ⟨_, le_rfl, hshort _ hreached⟩
  obtain ⟨-, hrefused⟩ := h.first haccepted
  rw [h.step_eq]
  refine ⟨haccepted, config.step_pos hvalid _, config.step_le_initialStep hvalid _, ?_⟩
  cases hshrinks : outcome.shrinks with
  | zero => exact min_le_left _ _
  | succ k =>
      have hlong : bound < config.step k :=
        not_le.mp fun hle => hrefused k (by omega) (hshort k hle)
      obtain ⟨-, -, hpos, -⟩ := SearchConfig.bounds_of_valid hvalid
      calc min config.initialStep (config.tau * bound)
        _ ≤ config.tau * bound := min_le_right _ _
        _ ≤ config.tau * config.step k := mul_le_mul_of_nonneg_left hlong.le hpos.le
        _ = config.step (k + 1) := mul_comm _ _

/-! ## Quadratics -/

section Curvature

variable {S : RealMatrix n} {b : Fin n → ℝ} {L : ℝ}

/-- Along a step against the gradient, the value falls by at least the share `1 - t * L / 2` of what
the slope promises. -/
theorem quadraticForm_descend_le (hsymm : S.IsSymm)
    (hcurvature : ∀ v, v ⬝ᵥ S *ᵥ v ≤ L * (v ⬝ᵥ v)) {x g : Fin n → ℝ} (hg : g = S *ᵥ x - b) (t : ℝ) :
    quadraticForm S b (x + t • -g) ≤
      quadraticForm S b x + t * (1 - t * L / 2) * (g ⬝ᵥ -g) := by
  have hcurve := hcurvature (t • -g)
  have hsquare : (t • -g) ⬝ᵥ (t • -g) = t ^ 2 * (g ⬝ᵥ g) := by
    rw [smul_dotProduct, dotProduct_smul, neg_dotProduct_neg, smul_eq_mul, smul_eq_mul]
    ring
  rw [quadraticForm_add hsymm, ← hg, dotProduct_smul, smul_eq_mul]
  rw [hsquare] at hcurve
  rw [dotProduct_neg]
  linarith

theorem acceptable_of_le_bound (hsymm : S.IsSymm) (hL : 0 < L)
    (hcurvature : ∀ v, v ⬝ᵥ S *ᵥ v ≤ L * (v ⬝ᵥ v)) {x g : Fin n → ℝ} (hg : g = S *ᵥ x - b)
    (hslope : g ⬝ᵥ -g < 0) {alpha t : ℝ} (halpha : 0 < alpha) (ht : 0 < t)
    (hbound : t ≤ 2 * (1 - alpha) / L) :
    LineSearch.acceptable alpha (quadraticForm S b x) (g ⬝ᵥ -g) t
      (quadraticForm S b (x + t • -g)) = true := by
  have hdescends := quadraticForm_descend_le hsymm hcurvature hg t
  have hshare : alpha ≤ 1 - t * L / 2 := by
    rw [le_div_iff₀ hL] at hbound
    linarith
  have hpromise : t * (1 - t * L / 2) * (g ⬝ᵥ -g) ≤ alpha * t * (g ⬝ᵥ -g) := by
    rw [mul_comm alpha]
    exact mul_le_mul_of_nonpos_right (mul_le_mul_of_nonneg_left hshare ht.le) hslope.le
  have hfalls : alpha * t * (g ⬝ᵥ -g) < 0 := mul_neg_of_pos_of_neg (mul_pos halpha ht) hslope
  exact acceptable_of_le (by linarith) (by linarith)

end Curvature

/-! ## Runs -/

section Runs

variable [Kernel ℝ] {q : Quadratic ℝ} {S : RealMatrix n} {b : Fin n → ℝ} {L : ℝ} {attempts : ℕ}
  {config : SolverConfig ℝ}

namespace Quadratic.Represents

variable (hq : q.Represents S b)

include hq

/-- A search along any direction has an outcome, in terms of the values of the quadratic form. -/
theorem exists_search (config : SearchConfig ℝ) (x d g : Fin n → ℝ) :
    ∃ outcome looks, LineSearch.Backtracks (onVec (quadraticForm S b)) config (List.ofFn x)
        (List.ofFn d) (g ⬝ᵥ d) outcome looks ∧
      ((Problem.quadratic q).answers.search (List.ofFn x) (List.ofFn d) (List.ofFn g) config).1 =
        .ok outcome := by
  have hvalue (y : Vec ℝ) (hy : y.length = (List.ofFn x).length) :=
    value_eq_onVec (f := (Problem.quadratic q).answers) hq.value_ofFn (hy.trans List.length_ofFn)
  obtain ⟨outcome, looks, hbacktracks, hsearch⟩ := LineSearch.backtracking_backtracks
    (Problem.quadratic q).answers.traced_gives (List.ofFn x) (List.ofFn d) (List.ofFn g) (by simp)
    (by simp) hvalue config []
  rw [Vec.inner_ofFn] at hbacktracks
  exact ⟨outcome, looks, hbacktracks, congrArg Prod.fst hsearch⟩

/-- What a view of a descent against the gradient holds, in coordinates. -/
theorem exists_of_shown {carried : Option ℝ} {view : View ℝ}
    (h : Shown (Problem.quadratic q).answers .steepest attempts config carried view) :
    ∃ x : Fin n → ℝ, view.x = List.ofFn x ∧ view.gradient = List.ofFn (S *ᵥ x - b) ∧
      view.direction = List.ofFn (-(S *ᵥ x - b)) := by
  obtain ⟨x, hx, hgradient⟩ := hq.exists_of_gradient h.unsettled.gradient_eq
  have hdirected := h.directed
  rw [Rule.answer_steepest] at hdirected
  refine ⟨x, hx, hgradient, ?_⟩
  rw [← Vec.neg_ofFn, ← hgradient]
  exact (congrArg Direction.vector (Except.ok.inj hdirected)).symm

theorem acceptsFrom (hsymm : S.IsSymm) (hL : 0 < L)
    (hcurvature : ∀ v, v ⬝ᵥ S *ᵥ v ≤ L * (v ⬝ᵥ v)) (hvalid : config.lineSearch.validate = .ok ())
    (hcap : config.lineSearch.step config.lineSearch.maxShrinks ≤
      2 * (1 - config.lineSearch.alpha) / L)
    {carried : Option ℝ} {view : View ℝ}
    (h : Shown (Problem.quadratic q).answers .steepest attempts config carried view) :
    AcceptsFrom config.lineSearch
      (config.lineSearch.tau * (2 * (1 - config.lineSearch.alpha) / L)) view.status view.step := by
  obtain ⟨x, hx, hgradient, hdirection⟩ := hq.exists_of_shown h
  obtain ⟨outcome, hsearch, hstep, hstatus⟩ := h.searched
  rw [hx, hgradient, hdirection] at hsearch
  obtain ⟨outcome', looks, hbacktracks, hsearch'⟩ := hq.exists_search config.lineSearch x
    (-(S *ᵥ x - b)) (S *ᵥ x - b)
  obtain rfl : outcome' = outcome := Except.ok.inj (hsearch'.symm.trans hsearch)
  have hslope : (S *ᵥ x - b) ⬝ᵥ -(S *ᵥ x - b) < 0 := by
    have hpos := normSq_pos_of_unmet h.unsettled.above
    rw [hgradient, Vec.normSq, Vec.inner_ofFn] at hpos
    rw [dotProduct_neg]
    exact neg_lt_zero.mpr hpos
  have hdown : ¬ (0.0 : ℝ) < (S *ᵥ x - b) ⬝ᵥ -(S *ᵥ x - b) := by
    norm_num only [not_lt]
    exact hslope.le
  obtain ⟨-, ⟨halpha, -⟩, -⟩ := SearchConfig.bounds_of_valid hvalid
  rw [← hstep, ← hstatus]
  refine hbacktracks.acceptsFrom hvalid hdown hcap fun k hk => ?_
  rw [LineSearch.acceptableAt_iff, LineSearch.trial_ofFn, onVec_ofFn, onVec_ofFn]
  exact acceptable_of_le_bound hsymm hL hcurvature rfl hslope halpha
    (SearchConfig.step_pos hvalid k) hk

/-- Points with the right number of coordinates are all that a descent needs and all that it
meets. -/
theorem serves_steepest :
    Serves (Problem.quadratic q).answers .steepest attempts config
      fun x => ∃ v : Fin n → ℝ, x = List.ofFn v where
  value := by
    rintro _ ⟨v, rfl⟩
    exact ⟨_, hq.value_ofFn v⟩
  gradient := by
    rintro _ ⟨v, rfl⟩
    exact ⟨_, hq.gradient_ofFn v, rfl⟩
  searched := by
    rintro carried _ gradient iteration ⟨v, rfl⟩ hunsettled
    obtain rfl : gradient = List.ofFn (S *ᵥ v - b) :=
      Except.ok.inj (hunsettled.gradient_eq.symm.trans (hq.gradient_ofFn v))
    obtain ⟨outcome, -, -, hsearch⟩ := hq.exists_search config.lineSearch v (-(S *ᵥ v - b))
      (S *ᵥ v - b)
    refine ⟨_, outcome, congrArg Prod.fst Rule.answer_steepest, ?_⟩
    rwa [Vec.neg_ofFn]

theorem stepsKeep_steepest :
    StepsKeep (Problem.quadratic q).answers .steepest attempts config
      fun x => ∃ v : Fin n → ℝ, x = List.ofFn v := by
  intro carried view hshown _
  obtain ⟨x, hx, -, hdirection⟩ := hq.exists_of_shown hshown
  rw [hx, hdirection, Vec.move_ofFn]
  exact ⟨_, rfl, _, rfl⟩

end Quadratic.Represents

/-- Gradient descent on a quadratic whose curvature is at most `L` does not stall: every iteration
accepts a step that is bounded from below, wherever it stands. -/
theorem solve_steepest_acceptsFrom {A : RealMatrix n}
    (hmake : Quadratic.make (tabulate A) (List.ofFn b) = .ok q) (hL : 0 < L)
    (hcurvature : ∀ v, v ⬝ᵥ symmetricPart A *ᵥ v ≤ L * (v ⬝ᵥ v))
    (hconfig : config.validate = .ok ())
    (hcap : config.lineSearch.initialStep * config.lineSearch.tau ^ config.lineSearch.maxShrinks ≤
      2 * (1 - config.lineSearch.alpha) / L)
    {x0 : Vec ℝ} (hx0 : x0.length = n) {inherited : Option ℝ} {o : σ}
    {result : Except (Stop ℝ) (Solution ℝ)} {session : Session σ ℝ}
    (hrun : solve .steepest attempts ((Problem.quadratic q).objective σ) config x0
      (.start o inherited) = (result, session)) :
    (∃ solution, result = .ok solution ∧ solution.iterations = session.views.size) ∧
      ∀ view ∈ session.views.toList, AcceptsFrom config.lineSearch
        (2 * config.lineSearch.tau * (1 - config.lineSearch.alpha) / L) view.status view.step := by
  have hq := Quadratic.represents_of_make hmake
  have hgives := Problem.objective_gives (σ := σ) (.quadratic q)
  have hadmissible : Admissible .steepest config ((Problem.quadratic q).objective σ).unknowns x0 :=
    ⟨by simp, hconfig, hx0.trans hq.unknowns_eq.symm⟩
  constructor
  · obtain ⟨solution, rfl⟩ := solve_answers hgives hq.serves_steepest hq.stepsKeep_steepest
      (Vec.exists_eq_ofFn x0 hx0) hadmissible hrun
    obtain ⟨calls, -, hfinished⟩ := solve_finished hgives hrun
    exact ⟨solution, rfl, hfinished.iterations_eq⟩
  · intro view hview
    obtain ⟨i, hi⟩ := List.getElem?_of_mem hview
    have hshown := (solve_chronicle hgives hrun).shown i view hi
    rw [← SearchConfig.step_eq] at hcap
    have haccepts := hq.acceptsFrom (symmetricPart_isSymm A) hL hcurvature
      (SolverConfig.validate_ok hconfig).2 hcap hshown
    have hleast : config.lineSearch.tau * (2 * (1 - config.lineSearch.alpha) / L) =
        2 * config.lineSearch.tau * (1 - config.lineSearch.alpha) / L := by ring
    rwa [hleast] at haccepts

end Runs

/-- An indefinite matrix that is not symmetric, with the default configuration: no step is shorter
than three eighths. -/
theorem indefinite_acceptsFrom :
    ∃ (q : Quadratic ℝ) (solution : Solution ℝ) (session : Session Unit ℝ),
      Quadratic.make (tabulate !![1, 2; 0, -1]) [0, 0] = .ok q ∧
      solve .steepest 0 ((Problem.quadratic q).objective Unit) .default [1, 1] (.start ()) =
        (.ok solution, session) ∧
      0 < session.views.size ∧
      ∀ view ∈ session.views.toList, AcceptsFrom .default (3 / 8) view.status view.step := by
  obtain ⟨q, hmake⟩ := Quadratic.exists_make !![1, 2; 0, -1] 0
  have hq := Quadratic.represents_of_make hmake
  have hsymm : symmetricPart !![1, 2; 0, -1] = !![1, 1; 1, -1] := by
    ext i j
    fin_cases i <;> fin_cases j <;> norm_num [symmetricPart]
  have hcurvature (v : Fin 2 → ℝ) : v ⬝ᵥ symmetricPart !![1, 2; 0, -1] *ᵥ v ≤ 2 * (v ⬝ᵥ v) := by
    rw [hsymm]
    simp only [dotProduct, mulVec, Fin.sum_univ_two, of_apply, cons_val_zero, cons_val_one]
    nlinarith [sq_nonneg (v 0 - v 1)]
  have hcap : (1.0 : ℝ) * 0.75 ^ 1000 ≤ 2 * (1 - 0.5) / 2 := by
    have hpow : (0.75 : ℝ) ^ 1000 ≤ 0.75 ^ 3 :=
      pow_le_pow_of_le_one (by norm_num) (by norm_num) (by norm_num)
    have hone : (1.0 : ℝ) = 1 := by norm_num
    rw [hone, one_mul]
    exact hpow.trans (by norm_num)
  obtain ⟨result, session, hrun⟩ : ∃ result session,
      solve .steepest 0 ((Problem.quadratic q).objective Unit) .default [1, 1] (.start ()) =
        (result, session) := ⟨_, _, rfl⟩
  obtain ⟨⟨solution, rfl, hiterations⟩, hviews⟩ := solve_steepest_acceptsFrom hmake two_pos
    hcurvature SolverConfig.default_validate hcap rfl hrun
  -- The gradient at the start is large, so there is an iteration.
  obtain ⟨calls, -, hfinished⟩ := solve_finished (Problem.objective_gives _) hrun
  have hgradient : q.gradient [1, 1] = .ok [2, 0] := by
    have h := hq.gradient_ofFn ![1, 1]
    rw [hsymm] at h
    norm_num [mulVec_eq_sum] at h
    simpa using h
  have hunmet : ¬ Vec.normSq [2, 0] ≤ (SolverConfig.default : SolverConfig ℝ).threshold := by
    norm_num [Vec.normSq, Vec.inner_eq_sum, SolverConfig.threshold, SolverConfig.default]
  have hleast : (2 : ℝ) * 0.75 * (1 - 0.5) / 2 = 3 / 8 := by norm_num
  refine ⟨q, solution, session, by simpa using hmake, hrun, ?_, fun view hview => ?_⟩
  · rw [← hiterations]
    exact hfinished.iterations_pos hgradient hunmet (by decide)
  · rw [← hleast]
    exact hviews view hview

end Downhill
