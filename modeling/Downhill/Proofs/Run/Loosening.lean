import Mathlib.Order.Defs.Unbundled
import Downhill.Proofs.Run.Counting
import Downhill.Proofs.Run.Decrease

/-! # Loosening the tolerance

Under a looser tolerance the same run stops earlier. Two runs that differ in their thresholds alone
are in step until the looser one has converged: the threshold decides when to stop, and nothing
else.
-/

namespace Downhill

open Session Descent

variable {σ α : Type}

/-- The same bookkeeping under another threshold. -/
def Convergence.under (threshold : α) (state : Convergence α) : Convergence α :=
  { state with threshold }

@[simp] theorem Convergence.under_converged (threshold : α) (state : Convergence α) :
    (state.under threshold).converged = state.converged := rfl

@[simp] theorem Convergence.under_advance (threshold : α) (state : Convergence α) :
    (state.under threshold).advance = state.advance.under threshold := rfl

/-! ## Two runs compared -/

section Comparison

variable {problem : Objective σ α} {x : Vec α} {i : Nat}
  {tight loose : Except (Stop α) (Solution α) × Session σ α}

/-- A run stops at a point that has no value, so there is no result. -/
def Valueless (problem : Objective σ α) (x : Vec α)
    (ended : Except (Stop α) (Solution α) × Session σ α) : Prop :=
  ∃ o fault, (problem.value x o).1 = .error fault ∧ ended.1 = .error (.fault fault)

/-- A run converges at `x` in iteration `i`, and has a result unless there is no value. -/
inductive ConvergesAt (problem : Objective σ α) (x : Vec α) (i : Nat)
    (ended : Except (Stop α) (Solution α) × Session σ α) : Prop
  | solved (solution : Solution α) : ended.1 = .ok solution → solution.x = x →
      solution.iterations = i → solution.converged = true → ConvergesAt problem x i ended
  | valueless : Valueless problem x ended → ConvergesAt problem x i ended

/-- How a run ends under a looser threshold: as the tighter one does, or at the same point but
converged there, or at an earlier point, from which the tighter one goes on. -/
inductive EndsSooner (problem : Objective σ α)
    (tight loose : Except (Stop α) (Solution α) × Session σ α) : Prop
  | same : loose = tight → EndsSooner problem tight loose
  | flagged : loose.1 = tight.1.map (fun solution => { solution with converged := true }) →
      (∀ error, tight.1 ≠ .error (.error error)) → loose.2.views = tight.2.views →
      EndsSooner problem tight loose
  | earlier (s : Session σ α) (x : Vec α) : x.length = problem.unknowns →
      loose.2.views = s.views → s.Keeps tight.2 → GoesOn s x s.views.size tight →
      ConvergesAt problem x s.views.size loose → EndsSooner problem tight loose

theorem EndsSooner.keeps (h : EndsSooner problem tight loose) : loose.2.Keeps tight.2 := by
  cases h with
  | same hsame => exact .of_eq (by rw [hsame])
  | flagged _ _ hviews => exact .of_eq hviews.symm
  | earlier s x _ hviews hkeeps _ _ => exact hkeeps.of_views hviews

end Comparison

/-! ## In step -/

variable [Scalar α] {problem : Objective σ α} {x : Vec α} {state : Convergence α} {threshold : α}

/-- A looser threshold is met wherever the tighter one is, so either the verdicts agree or the
looser run alone has converged. -/
theorem Convergence.observe_under [IsTrans α (· ≤ ·)] (hle : state.threshold ≤ threshold)
    (normSq : α) :
    (state.under threshold).observe normSq = (state.observe normSq).under threshold ∨
      (state.observe normSq).converged = false ∧
        ((state.under threshold).observe normSq).converged = true := by
  by_cases htight : normSq ≤ state.threshold
  · have hloose : normSq ≤ threshold := IsTrans.trans _ _ _ htight hle
    left
    simp [observe, under, htight, hloose]
  · by_cases hloose : normSq ≤ threshold
    · right
      simp [observe, under, htight, hloose]
    · left
      simp [observe, under, htight, hloose]

namespace Descent

theorem look_ok {s s' : Session σ α} {looked : Vec α × Convergence α}
    (h : look problem x state s = (.ok looked, s')) :
    looked.2 = state.observe looked.1.normSq := by
  obtain ⟨gradient, s₁, -, h⟩ := bind_ok h
  dsimp only at h
  split at h
  · cases h
    rfl
  · cases h

/-- The threshold has no say in what is looked at, only in the verdict. -/
theorem look_under (x : Vec α) (state : Convergence α) (threshold : α) (s : Session σ α) :
    look problem x (state.under threshold) s =
      ((look problem x state s).1.map fun looked =>
        (looked.1, (state.under threshold).observe looked.1.normSq),
        (look problem x state s).2) := by
  simp only [look, bind_apply]
  rcases evaluate (problem.gradient x) s with ⟨stop | gradient, s₁⟩
  · rfl
  · dsimp only
    split
    · rfl
    · rfl

omit [Scalar α] in
theorem conclude_under (x : Vec α) (state : Convergence α) (threshold : α) :
    conclude problem x (state.under threshold) = conclude problem x state := rfl

omit [Scalar α] in
theorem conclude_flags {judged : Convergence α} (hiteration : judged.iteration = state.iteration)
    (hnorm : judged.gradientNormSq = state.gradientNormSq) (hconverged : judged.converged = true)
    (s : Session σ α) :
    EndsSooner problem (conclude problem x state s) (conclude problem x judged s) := by
  simp only [conclude, bind_apply, report_apply, evaluate]
  rcases problem.value x s.objective with ⟨fault | value, o⟩
  · exact .flagged rfl (by simp) rfl
  · refine .flagged ?_ (fun error h => by cases h) rfl
    simp only [Convergence.solution, hiteration, hnorm, hconverged]
    rfl

omit [Scalar α] in
theorem conclude_convergesAt (hconverged : state.converged = true) (s : Session σ α) :
    ConvergesAt problem x state.iteration (conclude problem x state s) ∧
      (conclude problem x state s).2.views = s.views := by
  simp only [conclude, bind_apply, report_apply, evaluate]
  rcases hvalue : problem.value x s.objective with ⟨fault | value, o⟩
  · exact ⟨.valueless ⟨s.objective, fault, by rw [hvalue], rfl⟩, rfl⟩
  · exact ⟨.solved _ rfl rfl rfl hconverged, rfl⟩

variable [Kernel α] {rule : Rule α} {attempts : Nat} {config : SearchConfig α}

theorem step_under (x gradient : Vec α) (state : Convergence α) (threshold : α) :
    step rule attempts problem config x gradient (state.under threshold) =
      step rule attempts problem config x gradient state := rfl

/-- Where the looser run is done, the tighter one goes on with a step. -/
theorem departure_endsSooner {judged : Convergence α} {gradient : Vec α} (n : Nat)
    (hlength : x.length = problem.unknowns) (hpending : state.converged = false)
    (hconverged : judged.converged = true) {s : Session σ α}
    (hcount : state.iteration = s.views.size) (hcount' : judged.iteration = s.views.size) :
    EndsSooner problem
      ((step rule attempts problem config x gradient state >>= fun next =>
        loop rule attempts problem config n next state.advance >>= closing problem) s)
      (conclude problem x judged s) := by
  obtain ⟨hconverges, hviews⟩ := conclude_convergesAt hconverged s
  obtain ⟨ended, hended⟩ : ∃ ended, (step rule attempts problem config x gradient state >>=
    fun next => loop rule attempts problem config n next state.advance >>= closing problem) s =
      ended := ⟨_, rfl⟩
  have hadvance : state.advance.converged = false := hpending
  obtain ⟨hkeeps, hgoes⟩ := step_goesOn (fun next s₁ => remainder_keeps n s₁ hadvance) hended
  rw [hended]
  exact .earlier s x hlength hviews hkeeps (hcount ▸ hgoes) (hcount' ▸ hconverges)

/-- From the same point on, the looser run ends as the tighter one does, or sooner. -/
theorem remainder_endsSooner [IsTrans α (· ≤ ·)] (n : Nat) (hle : state.threshold ≤ threshold)
    (hlength : x.length = problem.unknowns) (hpending : state.converged = false) {s : Session σ α}
    (hcount : state.iteration = s.views.size) :
    EndsSooner problem ((loop rule attempts problem config n x state >>= closing problem) s)
      ((loop rule attempts problem config n x (state.under threshold) >>= closing problem) s) := by
  induction n generalizing s x state with
  | zero =>
      rw [remainder_zero x hpending, remainder_zero x (by simpa using hpending), bind_apply,
        bind_apply, look_under]
      rcases hlook : look problem x state s with ⟨stop | ⟨gradient, looked⟩, s₁⟩
      · exact .same rfl
      · obtain rfl : looked = state.observe gradient.normSq := look_ok hlook
        simp only [Except.map]
        rcases state.observe_under hle gradient.normSq with hagree | ⟨-, hloose⟩
        · rw [hagree, conclude_under]
          exact .same rfl
        · exact conclude_flags (by rfl) (by rfl) hloose s₁
  | succ n ih =>
      rw [remainder_succ, remainder_succ, bind_apply, bind_apply, look_under]
      rcases hlook : look problem x state s with ⟨stop | ⟨gradient, looked⟩, s₁⟩
      · exact .same rfl
      · have hcount₁ : looked.iteration = s₁.views.size := (look_counts hcount).answer hlook
        have hlooked : state.observe gradient.normSq = looked := (look_ok hlook).symm
        have hle₁ : looked.advance.threshold ≤ threshold := hlooked ▸ hle
        have hverdict := state.observe_under hle gradient.normSq
        rw [hlooked] at hverdict
        simp only [Except.map]
        rcases hverdict with hagree | ⟨htight, hloose⟩
        · rw [hagree]
          have hsame : (looked.under threshold).converged = looked.converged := rfl
          cases hconverged : looked.converged with
          | true =>
              rw [if_pos rfl, hsame, hconverged, if_pos rfl, conclude_under]
              exact .same rfl
          | false =>
              have hadvance : looked.advance.converged = false := hconverged
              rw [if_neg (by simp), hsame, hconverged, if_neg (by simp), step_under,
                Convergence.under_advance, bind_apply, bind_apply]
              rcases hstep : step rule attempts problem config x gradient looked s₁ with
                ⟨stop | next, s₂⟩
              · exact .same rfl
              · have hlength' := ((step_shows s₁).answer hstep).1.trans hlength
                exact ih hle₁ hlength' hadvance ((step_counts hcount₁).answer hstep)
        · have hcount' :
              ((state.under threshold).observe gradient.normSq).iteration = s₁.views.size := by
            rw [← hcount₁, ← hlooked]
            rfl
          rw [if_pos hloose, htight, if_neg (by simp)]
          exact departure_endsSooner n hlength htight hloose hcount₁ hcount'

end Descent

/-! ## Solves -/

/-- What the run under a looser tolerance has to do with the run under a tighter one. -/
structure Loosens (problem : Objective σ α)
    (tight loose : Except (Stop α) (Solution α) × Session σ α) : Prop where
  keeps : loose.2.Keeps tight.2
  /-- The looser run returns an iterate of the tighter one. It asks for the value there, which the
  tighter one need not have done. -/
  solved : ∀ solution, tight.1 = .ok solution →
    (∃ solution', loose.1 = .ok solution' ∧ solution'.iterations ≤ solution.iterations ∧
      (route tight.2.views.toList solution.x)[solution'.iterations]? = some solution'.x ∧
      (solution.converged = true → solution'.converged = true)) ∨
    ∃ x ∈ route tight.2.views.toList solution.x, x.length = problem.unknowns ∧
      Valueless problem x loose
  failed : ∀ error, tight.1 = .error (.error error) → loose = tight ∨
    ∃ i, error.iteration? = some i ∧
      ((∃ solution', loose.1 = .ok solution' ∧ solution'.converged = true ∧
        solution'.iterations ≤ i) ∨
      ∃ x : Vec α, x.length = problem.unknowns ∧ Valueless problem x loose)

section Solves

variable {tight loose : Except (Stop α) (Solution α) × Session σ α}

omit [Scalar α] in
theorem EndsSooner.solved (h : EndsSooner problem tight loose) {solution : Solution α}
    (hsolution : tight.1 = .ok solution) (hcount : solution.iterations = tight.2.views.size) :
    (∃ solution', loose.1 = .ok solution' ∧ solution'.iterations ≤ solution.iterations ∧
      (route tight.2.views.toList solution.x)[solution'.iterations]? = some solution'.x ∧
      (solution.converged = true → solution'.converged = true)) ∨
    ∃ x ∈ route tight.2.views.toList solution.x, x.length = problem.unknowns ∧
      Valueless problem x loose := by
  have hlast : (route tight.2.views.toList solution.x)[solution.iterations]? = some solution.x := by
    simp [route, hcount]
  cases h with
  | same hsame => exact .inl ⟨solution, hsame ▸ hsolution, Nat.le_refl _, hlast, id⟩
  | flagged hresult _ _ =>
      rw [hsolution] at hresult
      exact .inl ⟨_, hresult, Nat.le_refl _, hlast, fun _ => rfl⟩
  | earlier s x hlength _ _ hgoes hconverges =>
      cases hgoes with
      | refused error _ herror _ => cases herror.symm.trans hsolution
      | fault fault hfault _ => cases hfault.symm.trans hsolution
      | view view hview hx =>
          have hpoint : (route tight.2.views.toList solution.x)[s.views.size]? = some x := by
            rw [← hx]
            exact route_of_view (by rwa [Array.getElem?_toList])
          have hbefore : s.views.size < tight.2.views.size :=
            (Array.getElem?_eq_some_iff.mp hview).1
          cases hconverges with
          | valueless hnone => exact .inr ⟨x, List.mem_of_getElem? hpoint, hlength, hnone⟩
          | solved solution' hloose hx' hi hconverged =>
              refine .inl ⟨solution', hloose, by omega, ?_, fun _ => hconverged⟩
              rw [hi, hx', hpoint]

omit [Scalar α] in
theorem EndsSooner.failed (h : EndsSooner problem tight loose) {error : SolverError α}
    (herror : tight.1 = .error (.error error))
    (hcount : Rejects error ∧ tight.2.views = #[] ∨
      error.iteration? = some tight.2.views.size) :
    loose = tight ∨ ∃ i, error.iteration? = some i ∧
      ((∃ solution', loose.1 = .ok solution' ∧ solution'.converged = true ∧
        solution'.iterations ≤ i) ∨
      ∃ x : Vec α, x.length = problem.unknowns ∧ Valueless problem x loose) := by
  cases h with
  | same hsame => exact .inl hsame
  | flagged _ hnever _ => exact absurd herror (hnever error)
  | earlier s x hlength _ _ hgoes hconverges =>
      right
      have hnamed : ∃ i, error.iteration? = some i ∧ s.views.size ≤ i := by
        cases hgoes with
        | fault fault hfault _ => cases hfault.symm.trans herror
        | refused error' hrefuses herror' _ =>
            cases herror'.symm.trans herror
            exact ⟨_, hrefuses.iteration?_eq, Nat.le_refl _⟩
        | view view hview _ =>
            have hbefore : s.views.size < tight.2.views.size :=
              (Array.getElem?_eq_some_iff.mp hview).1
            rcases hcount with ⟨-, hnone⟩ | hi
            · simp [hnone] at hbefore
            · exact ⟨_, hi, Nat.le_of_lt hbefore⟩
      obtain ⟨i, hi, hle⟩ := hnamed
      refine ⟨i, hi, ?_⟩
      cases hconverges with
      | valueless hnone => exact .inr ⟨x, hlength, hnone⟩
      | solved solution' hloose _ hcount' hconverged =>
          exact .inl ⟨solution', hloose, hconverged, hcount'.trans_le hle⟩

variable {rule : Rule α} {config : SolverConfig α} {x0 : Vec α}

/-- Valid tolerances make no difference to the opening. -/
theorem opening_tolerance {tight loose : α}
    (htight : (0.0 : α) < tight ∧ Scalar.isFinite tight = true)
    (hloose : (0.0 : α) < loose ∧ Scalar.isFinite loose = true) :
    opening rule problem { config with tolerance := loose } x0 =
      opening rule problem { config with tolerance := tight } x0 := by
  simp [opening, SolverConfig.validate, htight, hloose]

variable [Kernel α] {attempts : Nat} {inherited : Option α}

theorem solve_endsSooner [IsTrans α (· ≤ ·)] {tight loose : α}
    (htight : (0.0 : α) < tight ∧ Scalar.isFinite tight = true)
    (hloose : (0.0 : α) < loose ∧ Scalar.isFinite loose = true)
    (hle : 2.0 * tight * tight ≤ 2.0 * loose * loose) (o : σ) :
    EndsSooner problem
      (solve rule attempts problem { config with tolerance := tight } x0 (.start o inherited))
      (solve rule attempts problem { config with tolerance := loose } x0
        (.start o inherited)) := by
  rw [solve_eq_stages, solve_eq_stages, opening_tolerance htight hloose, bind_apply, bind_apply]
  have hopening : Ends (opening rule problem { config with tolerance := tight } x0)
      (.start o inherited) _ _ := opening_spec (.start o inherited)
  rcases hrun : opening rule problem { config with tolerance := tight } x0 (.start o inherited) with
    ⟨stop | _, s⟩
  · exact .same rfl
  · obtain ⟨hstart, log, rfl⟩ := hopening.answer hrun
    exact remainder_endsSooner config.maxIterations hle hstart.dimension rfl rfl

/-- Under a looser tolerance the same run stops earlier, at an iterate of the run under the tighter
one. -/
theorem solve_loosens [IsTrans α (· ≤ ·)] (rule : Rule α) (attempts : Nat)
    (problem : Objective σ α) (config : SolverConfig α) (x0 : Vec α) (inherited : Option α)
    (o : σ) {tight loose : α}
    (htight : (0.0 : α) < tight ∧ Scalar.isFinite tight = true)
    (hloose : (0.0 : α) < loose ∧ Scalar.isFinite loose = true)
    (hle : 2.0 * tight * tight ≤ 2.0 * loose * loose) :
    Loosens problem
      (solve rule attempts problem { config with tolerance := tight } x0 (.start o inherited))
      (solve rule attempts problem { config with tolerance := loose } x0
        (.start o inherited)) := by
  have hsooner : EndsSooner problem
      (solve rule attempts problem { config with tolerance := tight } x0 (.start o inherited)) _ :=
    solve_endsSooner htight hloose hle o
  have hcounts : Ends (solve rule attempts problem { config with tolerance := tight } x0)
      (.start o inherited) _ _ := solve_counts o
  refine ⟨hsooner.keeps, ?_, ?_⟩
  · intro solution hsolution
    exact hsooner.solved hsolution (hcounts.answer (Prod.ext hsolution rfl))
  · intro error herror
    exact hsooner.failed herror (hcounts.stop (Prod.ext herror rfl) error rfl)

end Solves

/-- On the saddle, a run that takes four iterations to converge stops after two of them under a
looser tolerance, converged too. -/
theorem saddle_loosens :
    ∃ (solution solution' : Solution Float) (session session' : Session Unit Float),
      solve (.stabilised (.shiftByGamma 10.0)) 100 ((Problem.saddle .default).objective Unit)
        ⟨1e-4, 10, .default⟩ [0.5, 0.2] (.start ()) = (.ok solution, session) ∧
      solve (.stabilised (.shiftByGamma 10.0)) 100 ((Problem.saddle .default).objective Unit)
        ⟨0.05, 10, .default⟩ [0.5, 0.2] (.start ()) = (.ok solution', session') ∧
      (solution.converged && solution.iterations == 4) = true ∧
      (solution'.converged && solution'.iterations == 2) = true ∧
      ((0.0 : Float) < 1e-4 ∧ Scalar.isFinite (1e-4 : Float) = true) ∧
      ((0.0 : Float) < 0.05 ∧ Scalar.isFinite (0.05 : Float) = true) ∧
      (2.0 * 1e-4 * 1e-4 : Float) ≤ 2.0 * 0.05 * 0.05 ∧
      Loosens ((Problem.saddle .default).objective Unit) (.ok solution, session)
        (.ok solution', session') := by
  obtain ⟨solution, session, htight, hfour⟩ := exists_of_answersWith
    (solve (.stabilised (.shiftByGamma 10.0)) 100 ((Problem.saddle .default).objective Unit)
      ⟨1e-4, 10, .default⟩ [0.5, 0.2])
    (.start ()) (fun solution _ => solution.converged && solution.iterations == 4)
    (by decide +kernel)
  obtain ⟨solution', session', hloose, htwo⟩ := exists_of_answersWith
    (solve (.stabilised (.shiftByGamma 10.0)) 100 ((Problem.saddle .default).objective Unit)
      ⟨0.05, 10, .default⟩ [0.5, 0.2])
    (.start ()) (fun solution _ => solution.converged && solution.iterations == 2)
    (by decide +kernel)
  have hvalid : (0.0 : Float) < 1e-4 ∧ Scalar.isFinite (1e-4 : Float) = true := by decide +kernel
  have hvalid' : (0.0 : Float) < 0.05 ∧ Scalar.isFinite (0.05 : Float) = true := by decide +kernel
  have hle : (2.0 * 1e-4 * 1e-4 : Float) ≤ 2.0 * 0.05 * 0.05 := by decide +kernel
  refine ⟨solution, solution', session, session', htight, hloose, hfour, htwo, hvalid, hvalid', hle,
    ?_⟩
  rw [← htight, ← hloose]
  exact solve_loosens _ _ _ (⟨1e-4, 10, .default⟩ : SolverConfig Float) _ none () hvalid hvalid' hle

end Downhill
