import Downhill.Proofs.Run.Stages

/-! # Raising the cap

A run with a higher cap is the same run, unless the lower cap cut it off; then it shows the same
views and goes on from where the other one ended.
-/

namespace Downhill

open Session Descent

variable {σ α : Type}

/-- What a run with the cap `limit` says of the run with the cap `limit'` from the same start. -/
structure Extends (limit limit' : Nat)
    (short long : Except (Stop α) (Solution α) × Session σ α) : Prop where
  failed : ∀ error, short.1 = .error (.error error) → long = short
  faulted : ∀ fault, short.1 = .error (.fault fault) → short.2.Keeps long.2
  converged : ∀ solution, short.1 = .ok solution → solution.converged = true → long = short
  capped : ∀ solution, short.1 = .ok solution → solution.converged = false →
    short.2.views.size = limit ∧ short.2.Keeps long.2 ∧
      (limit < limit' → GoesOn short.2 solution.x limit long)

namespace Extends

variable {limit limit' : Nat} {short : Except (Stop α) (Solution α) × Session σ α}

/-- A run that stops without a result stops at the same place under any cap. -/
theorem of_error (limit limit' : Nat) (stop : Stop α) (s : Session σ α) :
    Extends limit limit' (.error stop, s)
      ((.error stop, s) : Except (Stop α) (Solution α) × Session σ α) :=
  ⟨fun _ _ => rfl, fun _ _ => .of_eq rfl, nofun, nofun⟩

/-- So does a run that converges. -/
theorem of_converged (limit limit' : Nat)
    (h : ∀ solution, short.1 = .ok solution → solution.converged = true) :
    Extends limit limit' short short := by
  refine ⟨fun _ _ => rfl, fun _ _ => .of_eq rfl, fun _ _ _ => rfl, ?_⟩
  intro solution hsolution hpending
  rw [h solution hsolution] at hpending
  contradiction

/-- The same cap makes no difference. -/
theorem refl (hsize : ∀ solution, short.1 = .ok solution → short.2.views.size = limit) :
    Extends limit limit short short := by
  refine ⟨fun _ _ => rfl, fun _ _ => .of_eq rfl, fun _ _ _ => rfl, ?_⟩
  intro solution hsolution _
  exact ⟨hsize solution hsolution, .of_eq rfl, fun hlt => absurd hlt (Nat.lt_irrefl limit)⟩

end Extends

variable [Scalar α] [Kernel α] {rule : Rule α} {attempts : Nat} {problem : Objective σ α}
  {config : SearchConfig α}

namespace Descent

omit [Scalar α] [Kernel α] in
/-- A converged point closes both runs. -/
theorem conclude_extends (limit limit' : Nat) (x : Vec α) {state : Convergence α}
    (hconverged : state.converged = true) (s : Session σ α) :
    Extends limit limit' (conclude problem x state s) (conclude problem x state s) := by
  have hconclude : Ends (conclude problem x state) s _ _ := conclude_keeps x state s
  refine .of_converged limit limit' fun solution hsolution => ?_
  exact (hconclude.answer (Prod.ext hsolution rfl)).2.2.2.trans hconverged

omit [Scalar α] [Kernel α] in
/-- If the point has not converged, it is up to the higher cap to go on from it. -/
theorem conclude_extends_of_goesOn {limit limit' : Nat} {x : Vec α} {state : Convergence α}
    {s : Session σ α} {long : Except (Stop α) (Solution α) × Session σ α}
    (hpending : state.converged = false) (hsize : s.views.size = limit)
    (hlong : s.Keeps long.2 ∧ GoesOn s x limit long) :
    Extends limit limit' (conclude problem x state s) long := by
  obtain ⟨hkeeps, hgoes⟩ := hlong
  have hconclude : Ends (conclude problem x state) s _ _ := conclude_keeps x state s
  refine ⟨fun error herror => ?_, fun fault hfault => ?_, fun solution hsolution hconverged => ?_,
    fun solution hsolution _ => ?_⟩
  · obtain ⟨-, fault, hfault⟩ := hconclude.stop (Prod.ext herror rfl)
    cases hfault
  · exact hkeeps.of_views (hconclude.stop (Prod.ext hfault rfl)).1
  · have hsame := (hconclude.answer (Prod.ext hsolution rfl)).2.2.2
    rw [hsame, hpending] at hconverged
    contradiction
  · obtain ⟨hviews, hx, -, -⟩ := hconclude.answer (Prod.ext hsolution rfl)
    refine ⟨by rw [hviews, hsize], hkeeps.of_views hviews, fun _ => ?_⟩
    rw [hx]
    exact hgoes.congr hviews rfl rfl

/-- Where the lower cap cuts a run off, the point is looked at in both runs. -/
theorem capped_extends (n : Nat) (x : Vec α) {state : Convergence α}
    (hpending : state.converged = false) {s : Session σ α} {limit : Nat}
    (hsize : s.views.size = limit) (hcount : state.iteration = limit) :
    Extends limit (limit + (n + 1)) (closing problem (x, state) s)
      ((loop rule attempts problem config (n + 1) x state >>= closing problem) s) := by
  have hlook : Ends (look problem x state) s _ _ := look_keeps s
  rw [closing_of_pending problem x hpending, remainder_succ, bind_apply, bind_apply]
  cases hrun : look problem x state s with
  | mk outcome s₁ =>
      cases outcome with
      | error stop => exact .of_error _ _ stop s₁
      | ok looked =>
          obtain ⟨gradient, looked⟩ := looked
          obtain ⟨hviews, hiteration, -⟩ := hlook.answer hrun
          dsimp only at hiteration ⊢
          cases hconverged : looked.converged with
          | true =>
              simp only [if_true]
              exact conclude_extends _ _ x hconverged s₁
          | false =>
              simp only [Bool.false_eq_true, if_false]
              have hcount₁ : looked.iteration = limit := hiteration.trans hcount
              have hadvance : looked.advance.converged = false := hconverged
              refine conclude_extends_of_goesOn hconverged (by rw [hviews, hsize]) ?_
              rw [← hcount₁]
              exact step_goesOn (fun next s₂ => remainder_keeps n s₂ hadvance) rfl

theorem run_extends (limit n : Nat) (solver : SolverConfig α) (x0 : Vec α) {s : Session σ α}
    (hviews : s.views = #[]) :
    Extends limit (limit + n)
      ((loop rule attempts problem config limit x0 (.start solver) >>= closing problem) s)
      ((loop rule attempts problem config (limit + n) x0 (.start solver) >>=
        closing problem) s) := by
  have hpending : (Convergence.start solver).converged = false := rfl
  have hloop : Ends (loop rule attempts problem config limit x0 (.start solver)) s _ _ :=
    loop_advances limit s hpending
  rw [loop_add limit n x0 _ hpending, bind_assoc, bind_apply, bind_apply]
  cases hrun : loop rule attempts problem config limit x0 (.start solver) s with
  | mk outcome s₁ =>
      cases outcome with
      | error stop => exact .of_error _ _ stop s₁
      | ok halted =>
          obtain ⟨x, state⟩ := halted
          have hadvanced := hloop.answer hrun
          dsimp only
          cases hconverged : state.converged with
          | true =>
              simp only [if_true, pure_bind, closing_of_converged problem x hconverged]
              exact conclude_extends _ _ x hconverged s₁
          | false =>
              simp only [Bool.false_eq_true, if_false]
              obtain ⟨hsize, hcount⟩ := hadvanced.capped hconverged
              simp only [hviews, List.size_toArray, List.length_nil, Nat.zero_add] at hsize
              simp only [Convergence.start, Nat.zero_add] at hcount
              cases n with
              | zero =>
                  refine .refl fun solution hsolution => ?_
                  have hclosing : Ends (closing problem (x, state)) s₁ _ _ := closing_keeps _ s₁
                  rw [(hclosing.answer (Prod.ext hsolution rfl)).1, hsize]
              | succ n => exact capped_extends n x hconverged hsize hcount

end Descent

/-- Raising the cap only extends a run: a failed or converged run stays as it is, and a run that was
cut off is a beginning of the longer one. -/
theorem solve_extends (config : SolverConfig α) (x0 : Vec α) (inherited : Option α) (o : σ)
    {limit limit' : Nat} (hle : limit ≤ limit') :
    Extends limit limit'
      (solve rule attempts problem { config with maxIterations := limit } x0 (.start o inherited))
      (solve rule attempts problem { config with maxIterations := limit' } x0
        (.start o inherited)) := by
  obtain ⟨n, rfl⟩ := Nat.exists_eq_add_of_le hle
  rw [solve_eq_stages, solve_eq_stages, bind_apply, bind_apply]
  have hopening : Ends (opening rule problem config x0) (.start o inherited) _ _ :=
    opening_spec (.start o inherited)
  cases hrun : opening rule problem config x0 (.start o inherited) with
  | mk outcome s =>
      -- The opening does not look at the cap.
      have hrun' (cap : Nat) :
          opening rule problem { config with maxIterations := cap } x0 (.start o inherited) =
            (outcome, s) := hrun
      rw [hrun', hrun']
      cases outcome with
      | error stop => exact .of_error _ _ stop s
      | ok _ =>
          obtain ⟨-, log, rfl⟩ := hopening.answer hrun
          exact run_extends limit n config x0 rfl

/-- The run on the saddle that is cut off after one iteration goes on if it may take four, and
converges. -/
theorem saddle_extends :
    ∃ (solution solution' : Solution Float) (session session' : Session Unit Float),
      solve (.stabilised (.shiftByGamma 10.0)) 100 ((Problem.saddle .default).objective Unit)
        ⟨1e-4, 1, .default⟩ [0.5, 0.2] (.start ()) = (.ok solution, session) ∧
      solve (.stabilised (.shiftByGamma 10.0)) 100 ((Problem.saddle .default).objective Unit)
        ⟨1e-4, 4, .default⟩ [0.5, 0.2] (.start ()) = (.ok solution', session') ∧
      solution.converged = false ∧ solution'.converged = true ∧ 1 ≤ 4 ∧
      Extends 1 4 (.ok solution, session) (.ok solution', session') := by
  obtain ⟨solution, session, hshort, hcut⟩ := exists_of_answersWith
    (solve (.stabilised (.shiftByGamma 10.0)) 100 ((Problem.saddle .default).objective Unit)
      ⟨1e-4, 1, .default⟩ [0.5, 0.2])
    (.start ()) (fun solution _ => !solution.converged) (by decide +kernel)
  obtain ⟨solution', session', hlong, hconverged⟩ := exists_of_answersWith
    (solve (.stabilised (.shiftByGamma 10.0)) 100 ((Problem.saddle .default).objective Unit)
      ⟨1e-4, 4, .default⟩ [0.5, 0.2])
    (.start ()) (fun solution _ => solution.converged) (by decide +kernel)
  refine ⟨solution, solution', session, session', hshort, hlong, by simpa using hcut, hconverged,
    by decide, ?_⟩
  rw [← hshort, ← hlong]
  exact solve_extends (⟨1e-4, 0, .default⟩ : SolverConfig Float) [0.5, 0.2] none () (by decide)

end Downhill
