import Downhill.Proofs.Evaluation.Fitting
import Downhill.Proofs.Evaluation.Recording
import Downhill.Proofs.Linear.Decomposition
import Downhill.Proofs.Number.Squares
import Downhill.Proofs.Run.Evaluations
import Downhill.Proofs.Run.Fallback
import Downhill.Proofs.Validity

/-! # Runs that never fault

A run on an objective that fits asks for evaluations at points of the right size only, and all that
it computes from the answers fits as well. It asks for a direction only if there are unknowns: an
empty gradient is small enough for every valid tolerance. So a fault is either an allowance that has
run out, or that of a decomposition of a matrix that is square and not empty.
-/

namespace Downhill

open Session Descent

variable {σ α : Type} [Scalar α] [Kernel α]

/-! ## Directions -/

theorem Matrix.Square.exists_newton {m : Matrix α} {n : Nat} (h : m.Square n)
    {solve : Vec α → Except Fault (Vec α)} (hsolver : m.solver? = .ok (some solve))
    {gradient : Vec α} (hgradient : gradient.length = n) (regularisation : α) :
    ∃ d, Stabiliser.newton solve gradient regularisation = .ok d := by
  obtain ⟨z, hz⟩ := h.exists_solution hsolver (b := gradient.neg) (by simpa using hgradient)
  exact ⟨⟨z, regularisation⟩, by rw [Stabiliser.newton, hz]⟩

/-- The matrix that a rule decomposes for its direction at `x`. -/
def Rule.Decomposes (rule : Rule α) (f : Answers α) (x : Vec α) (m : Matrix α) : Prop :=
  ∃ floor, rule = .stabilised (.eigenvalueFloor floor) ∧ f.hessian x = .ok m

namespace Stabiliser

variable {hessian : Matrix α} {gradient : Vec α} {n attempts iteration : Nat} {fault : Fault}
  (hsquare : hessian.Square n) (hgradient : gradient.length = n)

include hsquare hgradient

theorem shiftDirection_fault {config : ShiftConfig α} {carried : Option α}
    (h : (shiftDirection config attempts carried hessian gradient iteration).outcome =
      .error (.fault fault)) : fault = .unsettled := by
  have hfits : gradient.length = hessian.height := hgradient.trans hsquare.height.symm
  obtain ⟨ended, hended⟩ :=
    exists_shiftsTo config attempts carried hessian gradient iteration
  rw [hended.eq hsquare.isSquare] at h
  cases hended with
  | unshifted hfactor => cases (if_pos hfits).symm.trans h
  | shifted hnone hk hrefused hbelow hfactor => cases (if_pos hfits).symm.trans h
  | overflow => cases h
  | unsettled =>
      cases h
      rfl

theorem FloorsTo.breaksDown [Kernel.Shaped α] (hn : n ≠ 0) {floor : α}
    {ended : Except (Stop α) (Direction α) × Array (Event α)}
    (hended : FloorsTo floor hessian gradient iteration ended)
    (h : ended.1 = .error (.fault fault)) : hessian.BreaksDown fault := by
  cases hended with
  | broken hprojection =>
      cases h
      exact Projection.breaksDown_of_ofMatrix hsquare hn hprojection
  | misshapen hprojection hsolver =>
      obtain ⟨solver, hfits⟩ := (Projection.square_of_ofMatrix hsquare hn hprojection).exists_solver
      cases hfits.symm.trans hsolver
  | refused => cases h
  | @solved projection solve hprojection hsolver =>
      have hprojected := Projection.square_of_ofMatrix hsquare hn hprojection
      obtain ⟨d, hd⟩ := hprojected.exists_newton hsolver hgradient (projection.lift floor)
      cases hd.symm.trans h

end Stabiliser

theorem Rule.length_answer [Kernel.Shaped α] {rule : Rule α} {attempts iteration : Nat}
    {f : Answers α} {carried : Option α} {x gradient : Vec α} {d : Direction α}
    (h : (rule.answer attempts f carried x gradient iteration).1 = .ok d) :
    d.vector.length = gradient.length := by
  rcases Rule.direction_ok (Prod.ext h rfl) with hneg | ⟨m, solve, hsolver, hz⟩
  · rw [hneg, Vec.length_neg]
  · rw [Matrix.length_of_solver hsolver hz, Vec.length_neg]

/-- Where there are unknowns, a direction faults only for want of attempts or because a
decomposition breaks down. -/
theorem Rule.answer_fault [Kernel.Shaped α] {rule : Rule α} {attempts iteration : Nat}
    {f : Answers α} {Decomposes : Vec α → Matrix α → Prop} (hfit : f.Fitting Decomposes)
    {carried : Option α} {x gradient : Vec α} (hx : x.length = f.unknowns)
    (hgradient : gradient.length = f.unknowns) (hn : f.unknowns ≠ 0) {fault : Fault}
    (h : (rule.answer attempts f carried x gradient iteration).1 = .error (.fault fault)) :
    fault = .unsettled ∨
      ∃ m, (Decomposes x m ∨ rule.Decomposes f x m) ∧ m.BreaksDown fault := by
  have hbroken (hfault : f.hessian x = .error fault) : fault = .unsettled ∨
      ∃ m, (Decomposes x m ∨ rule.Decomposes f x m) ∧ m.BreaksDown fault := by
    obtain ⟨m, hm, hbreaks⟩ := hfit.broken x fault hx hfault
    exact .inr ⟨m, .inl hm, hbreaks⟩
  cases rule with
  | steepest => cases h
  | newton =>
      rw [answer_newton] at h
      cases hhessian : f.hessian x with
      | error fault' =>
          simp only [hhessian, Except.error.injEq, Stop.fault.injEq] at h
          exact hbroken (h ▸ hhessian)
      | ok hessian =>
          have hsquare := hfit.hessian x hessian hx hhessian
          obtain ⟨solver, hsolver⟩ := hsquare.exists_solver
          cases solver with
          | none => simp [hhessian, newtonOutcome, hsolver] at h
          | some solve =>
              obtain ⟨d, hd⟩ := hsquare.exists_newton hsolver hgradient 0.0
              simp [hhessian, newtonOutcome, hsolver, hd] at h
  | stabilised stabiliser =>
      rw [answer_stabilised] at h
      cases hhessian : f.hessian x with
      | error fault' =>
          simp only [hhessian, Except.error.injEq, Stop.fault.injEq] at h
          exact hbroken (h ▸ hhessian)
      | ok hessian =>
          have hsquare := hfit.hessian x hessian hx hhessian
          rw [hhessian] at h
          cases stabiliser with
          | diagonalShift config =>
              exact .inl (Stabiliser.shiftDirection_fault hsquare hgradient h)
          | eigenvalueFloor floor =>
              refine .inr ⟨hessian, .inr ⟨floor, rfl, hhessian⟩, ?_⟩
              exact Stabiliser.FloorsTo.breaksDown hsquare hgradient hn
                (Stabiliser.floorDirection_floorsTo _ _ _ _) h

/-- Only a rule that looks at a Hessian can fail. -/
theorem Rule.mem_hessianCalls {rule : Rule α} {attempts iteration : Nat} {f : Answers α}
    {carried : Option α} {x gradient : Vec α} {stop : Stop α}
    (h : (rule.answer attempts f carried x gradient iteration).1 = .error stop) :
    Call.hessian x ∈ rule.hessianCalls x := by
  cases rule with
  | steepest => cases h
  | newton => exact List.mem_singleton_self _
  | stabilised stabiliser => exact List.mem_singleton_self _

/-! ## What a run leaves behind -/

/-- The point that an evaluation is asked for. -/
def Call.point {α : Type} : Call α → Vec α
  | value x => x
  | gradient x => x
  | hessian x => x

/-- The vectors that a view shows have `n` entries. -/
structure View.Fits {α : Type} (view : View α) (n : Nat) : Prop where
  x : view.x.length = n
  gradient : view.gradient.length = n
  direction : view.direction.length = n

/-- Evaluations at points with `n` coordinates, and views of them. A Hessian is among the
evaluations only if there are unknowns. -/
structure Fits {α : Type} (n : Nat) (calls : List (Call α)) (views : Array (View α)) : Prop where
  point : ∀ call ∈ calls, call.point.length = n
  curved : ∀ x, Call.hessian x ∈ calls → n ≠ 0
  shown : ∀ view ∈ views, view.Fits n

/-- Why a run from `x0` faults that has made these evaluations and shown these views. -/
inductive Excuses (f : Answers α) (Decomposes : Vec α → Matrix α → Prop) (rule : Rule α)
    (x0 : Vec α) (calls : List (Call α)) (views : Array (View α)) : Fault → Prop
  /-- It was cut off. -/
  | unsettled : Excuses f Decomposes rule x0 calls views .unsettled
  /-- A decomposition broke down at the point that the views lead to, where the Hessian was asked
  for. -/
  | breakdown {x : Vec α} {m : Matrix α} {fault : Fault} : reached x0 views.toList = .ok x →
      Call.hessian x ∈ calls → Decomposes x m ∨ rule.Decomposes f x m → m.BreaksDown fault →
      Excuses f Decomposes rule x0 calls views fault

section Fits

variable {n : Nat} {calls later : List (Call α)} {views : Array (View α)}

omit [Scalar α] [Kernel α]

theorem Fits.nil : Fits n ([] : List (Call α)) #[] := ⟨by simp, by simp, by simp⟩

theorem Fits.append (h : Fits n calls views) (hpoint : ∀ call ∈ later, call.point.length = n)
    (hcurved : ∀ x, Call.hessian x ∈ later → n ≠ 0) : Fits n (calls ++ later) views where
  point call hcall := (List.mem_append.mp hcall).elim (h.point call) (hpoint call)
  curved x hx := (List.mem_append.mp hx).elim (h.curved x) (hcurved x)
  shown := h.shown

theorem Fits.value (h : Fits n calls views) {x : Vec α} (hx : x.length = n) :
    Fits n (calls ++ [.value x]) views :=
  h.append (by simpa [Call.point] using hx) (by simp)

theorem Fits.gradient (h : Fits n calls views) {x : Vec α} (hx : x.length = n) :
    Fits n (calls ++ [.gradient x]) views :=
  h.append (by simpa [Call.point] using hx) (by simp)

theorem Fits.push (h : Fits n calls views) {view : View α} (hview : view.Fits n) :
    Fits n calls (views.push view) where
  point := h.point
  curved := h.curved
  shown v hv := (Array.mem_push.mp hv).elim (h.shown v) fun heq => heq ▸ hview

end Fits

/-! ## The line search -/

section Parts

variable {f : Answers α} {Decomposes : Vec α → Matrix α → Prop} (hfit : f.Fitting Decomposes)

include hfit

omit [Scalar α] in
theorem Answers.Fitting.value_ends {x : Vec α} (hx : x.length = f.unknowns)
    {calls : List (Call α)} {answered : α → List (Call α) → Prop}
    {stopped : Fault → List (Call α) → Prop} (hok : ∀ v, answered v (calls ++ [.value x])) :
    Ends (f.traced.value x) calls answered stopped := by
  obtain ⟨v, hv⟩ := hfit.value x hx
  exact ends_value (fun v _ => hok v) fun fault hfault => by simp [hv] at hfault

namespace LineSearch

variable {x d gradient : Vec α} {config : SearchConfig α} {views : Array (View α)}
  (hx : x.length = f.unknowns) (hd : d.length = f.unknowns)

include hx hd

theorem trial_fits {β : Type} {t : α} {calls : List (Call α)} (h : Fits f.unknowns calls views)
    {next : α → Eval (List (Call α)) β} {answered : β → List (Call α) → Prop}
    {stopped : Fault → List (Call α) → Prop}
    (hnext : ∀ ft calls', Fits f.unknowns calls' views → Ends (next ft) calls' answered stopped) :
    Ends (do
        let trial ← Eval.pure (x.move t d)
        let ft ← f.traced.value trial
        next ft) calls answered stopped := by
  obtain ⟨trial, htrial, hlength⟩ := Vec.exists_move t (hx.trans hd.symm)
  have hpoint : trial.length = f.unknowns := hlength.trans hx
  refine .bind (ends_answer (fun trial' htrial' => ?_) fun fault hfault => ?_)
  · obtain rfl : trial = trial' := Except.ok.inj (htrial.symm.trans htrial')
    exact .bind (hfit.value_ends hpoint fun ft => hnext ft _ (h.value hpoint))
  · rw [htrial] at hfault
    contradiction

/-- A search along a direction that fits looks at points that fit, and it never faults. -/
theorem shrink_fits (fx slope : α) (remaining shrinks : Nat) (t : α) {calls : List (Call α)}
    (h : Fits f.unknowns calls views) :
    Ends (shrink f.traced config x d fx slope remaining shrinks t) calls
      (fun _ calls' => Fits f.unknowns calls' views) (fun _ _ => False) := by
  induction remaining generalizing shrinks t calls with
  | zero =>
      unfold shrink
      refine trial_fits hfit hx hd h fun ft calls' hcalls' => ?_
      split
      · exact .pure hcalls'
      · exact .pure hcalls'
  | succ remaining ih =>
      unfold shrink
      refine trial_fits hfit hx hd h fun ft calls' hcalls' => ?_
      split
      · exact .pure hcalls'
      · exact ih _ _ hcalls'

theorem backtracking_fits (hgradient : gradient.length = f.unknowns) {calls : List (Call α)}
    (h : Fits f.unknowns calls views) :
    Ends (backtracking f.traced x d gradient config) calls
      (fun _ calls' => Fits f.unknowns calls' views) (fun _ _ => False) := by
  unfold backtracking
  rw [Vec.dot_of_length (hgradient.trans hd.symm)]
  refine .bind ?_
  change Ends (if _ then _ else _) calls _ _
  split
  · exact .pure h
  · exact .bind (hfit.value_ends hx fun fx => shrink_fits hfit hx hd _ _ _ _ _ (h.value hx))

end LineSearch

/-! ## The parts of a run -/

variable {rule : Rule α} {attempts : Nat} {config : SearchConfig α} {x gradient : Vec α}
  {state : Convergence α} {x0 : Vec α} {s : Session (List (Call α)) α}
  (hx : x.length = f.unknowns) (h : Fits f.unknowns s.objective s.views)

/-- How a run stops: its evaluations fit, and if it faults, it is excused. -/
def Stops {α : Type} [Scalar α] [Kernel α] (f : Answers α) (Decomposes : Vec α → Matrix α → Prop)
    (rule : Rule α) (x0 : Vec α) (stop : Stop α) (s : Session (List (Call α)) α) : Prop :=
  Fits f.unknowns s.objective s.views ∧
    ∀ fault, stop = .fault fault → Excuses f Decomposes rule x0 s.objective s.views fault

namespace Descent

include hx h

theorem look_fits :
    Ends (look f.traced x state) s
      (fun looked s' => looked.1.length = f.unknowns ∧ looked.2 = state.observe looked.1.normSq ∧
        Fits f.unknowns s'.objective s'.views ∧ s'.views = s.views)
      (fun stop s' => Stops f Decomposes rule x0 stop s') := by
  obtain ⟨gradient, hgradient, hlength⟩ := hfit.gradient x hx
  refine .bind (ends_evaluate (ends_gradient (fun g hg => ?_) fun fault hfault => ?_))
  · obtain rfl : gradient = g := Except.ok.inj (hgradient.symm.trans hg)
    dsimp only
    split
    · exact .pure ⟨hlength, rfl, h.gradient hx, rfl⟩
    · exact ends_fail ⟨h.gradient hx, nofun⟩
  · rw [hgradient] at hfault
    contradiction

theorem conclude_fits :
    Ends (conclude f.traced x state) s (fun _ s' => Fits f.unknowns s'.objective s'.views)
      (fun stop s' => Stops f Decomposes rule x0 stop s') :=
  .bind (ends_report (.bind (ends_evaluate (hfit.value_ends hx fun _ => .pure (h.value hx)))))

theorem step_fits [Kernel.Shaped α] (hgradient : gradient.length = f.unknowns)
    (hn : f.unknowns ≠ 0) (harrived : reached x0 s.views.toList = .ok x) :
    Ends (step rule attempts f.traced config x gradient state) s
      (fun next s' => next.length = f.unknowns ∧ Fits f.unknowns s'.objective s'.views ∧
        reached x0 s'.views.toList = .ok next)
      (fun stop s' => Stops f Decomposes rule x0 stop s') := by
  have hrule : Fits f.unknowns (s.objective ++ rule.hessianCalls x) s.views := by
    refine h.append (fun call hcall => ?_) fun _ _ => hn
    cases rule <;> simp_all [Rule.hessianCalls, Call.point]
  refine .bind (direction_ends rfl (fun d hd => ?_) fun stop hstop => ?_)
  · have hlength : d.vector.length = f.unknowns := (Rule.length_answer hd).trans hgradient
    rw [Rule.answer_objective]
    refine .bind (ends_evaluate ((LineSearch.backtracking_fits hfit hx hlength hgradient hrule).imp
      (fun outcome calls hcalls => ?_) fun _ _ hfalse => hfalse.elim))
    refine .bind (ends_reportAll (.bind (ends_report (.bind (ends_present ?_)))))
    obtain ⟨next, hnext, hsize⟩ := Vec.exists_move outcome.step (hx.trans hlength.symm)
    refine ends_settle (fun next' hnext' => ?_) fun fault hfault => ?_
    · obtain rfl : next = next' := Except.ok.inj (hnext.symm.trans hnext')
      exact ⟨hsize.trans hx, hcalls.push ⟨hx, hgradient, hlength⟩, by simpa using hnext⟩
    · rw [hnext] at hfault
      contradiction
  · rw [Rule.answer_objective]
    refine ⟨hrule, ?_⟩
    rintro fault rfl
    rcases Rule.answer_fault hfit hx hgradient hn hstop with rfl | ⟨m, hm, hbreaks⟩
    · exact .unsettled
    · exact .breakdown harrived (List.mem_append_right _ (Rule.mem_hessianCalls hstop)) hm hbreaks

omit hx h in
theorem remainder_fits [Kernel.Shaped α] (hempty : f.unknowns = 0 →
      (Vec.normSq ([] : Vec α)) ≤ state.threshold) (n : Nat) {x : Vec α}
    {s : Session (List (Call α)) α} (hx : x.length = f.unknowns)
    (h : Fits f.unknowns s.objective s.views) (harrived : reached x0 s.views.toList = .ok x)
    (hpending : state.converged = false) :
    Ends (loop rule attempts f.traced config n x state >>= closing f.traced) s
      (fun _ s' => Fits f.unknowns s'.objective s'.views)
      (fun stop s' => Stops f Decomposes rule x0 stop s') := by
  induction n generalizing s x state with
  | zero =>
      rw [remainder_zero x hpending]
      refine .bind ((look_fits hfit hx h).imp (fun looked s₁ hlooked => ?_) fun _ _ hstop => hstop)
      exact conclude_fits hfit hx hlooked.2.2.1
  | succ n ih =>
      rw [remainder_succ]
      refine .bind ((look_fits hfit hx h).imp (fun looked s₁ hlooked => ?_) fun _ _ hstop => hstop)
      obtain ⟨hlength, hstate, hfits, hviews⟩ := hlooked
      split
      · exact conclude_fits hfit hx hfits
      · rename_i hconverged
        -- Without unknowns, the gradient would have been small enough.
        have hn : f.unknowns ≠ 0 := by
          intro hzero
          rw [hzero, List.length_eq_zero_iff] at hlength
          have hsmall := hempty hzero
          rw [← hlength] at hsmall
          simp [hstate, Convergence.observe, hsmall] at hconverged
        have harrived₁ : reached x0 s₁.views.toList = .ok x := hviews ▸ harrived
        refine .bind ((step_fits hfit hx hfits hlength hn harrived₁).imp
          (fun next s₂ hnext => ?_) fun _ _ hstop => hstop)
        refine ih ?_ hnext.1 hnext.2.1 hnext.2.2 (by simpa [Convergence.advance] using hconverged)
        simpa [hstate, Convergence.observe, Convergence.advance] using hempty

end Descent

end Parts

/-! ## Whole runs -/

theorem solve_fits [Scalar.SettlesEmpty α] [Kernel.Shaped α] {f : Answers α}
    {Decomposes : Vec α → Matrix α → Prop} (hfit : f.Fitting Decomposes) (rule : Rule α)
    (attempts : Nat) (config : SolverConfig α) (x0 : Vec α) (inherited : Option α) :
    Ends (solve rule attempts f.traced config x0) (.start [] inherited)
      (fun _ s => Fits f.unknowns s.objective s.views)
      (fun stop s => Stops f Decomposes rule x0 stop s) := by
  by_cases hstart : Admissible rule config f.unknowns x0
  · obtain ⟨log, hsolve⟩ := @solve_of_admissible _ α _ _ rule attempts f.traced config x0 hstart
      (.start [] inherited)
    unfold Ends
    rw [hsolve]
    have htolerance := (SolverConfig.validate_ok hstart.config_valid).1
    exact remainder_fits hfit (fun _ => Scalar.SettlesEmpty.normSq_nil_le htolerance) _
      hstart.dimension .nil rfl rfl
  · have hstart' : ¬ Admissible rule config f.traced.unknowns x0 := hstart
    obtain ⟨error, log, -, hstop⟩ :=
      solve_of_not_admissible attempts hstart' (.start [] inherited)
    unfold Ends
    rw [hstop]
    exact ⟨.nil, nofun⟩

/-! ## Problems -/

/-- The state of an objective that is recorded `layers` times over. -/
def Wrapped (σ α : Type) : (layers : Nat) → Type
  | 0 => σ
  | layers + 1 => Recorder (Wrapped σ α layers) α

namespace Problem

/-- The problem as an objective that is recorded `layers` times over. -/
def wrapped (p : Problem α) (σ : Type) : (layers : Nat) → Objective (Wrapped σ α layers) α
  | 0 => p.objective σ
  | layers + 1 => Recorder.objective (p.wrapped σ layers)

/-- Recorders leave the size and the Hessian of a problem alone. -/
theorem exists_answers [Kernel.Shaped α] (p : Problem α) (σ : Type) (layers : Nat) :
    ∃ f : Answers α, (p.wrapped σ layers).Gives f ∧ f.Fitting p.Decomposes ∧
      f.unknowns = p.unknowns ∧ f.hessian = p.hessian := by
  induction layers with
  | zero => exact ⟨p.answers, p.objective_gives, p.fitting, rfl, rfl⟩
  | succ layers ih =>
      obtain ⟨f, hgives, hfit, hunknowns, hhessian⟩ := ih
      exact ⟨f.recorded, recorder_gives hgives, hfit.recorded, hunknowns, hhessian⟩

end Problem

/-- In every solve of a problem, all evaluations and views fit, no Hessian is asked for without
unknowns, and a fault means that the run was cut off or that the decomposition of a square matrix
that is not empty broke down at the point it had come to. The evaluations are those of the same run
on answers that are written down. -/
theorem solve_safe (p : Problem Float) (rule : Rule Float) (attempts : Nat)
    (config : SolverConfig Float) (x0 : Vec Float) (inherited : Option Float) (σ : Type)
    (layers : Nat) (o : Wrapped σ Float layers) :
    let ended := solve rule attempts (p.wrapped σ layers) config x0 (.start o inherited)
    ∃ (f : Answers Float) (calls : List (Call Float)), (p.wrapped σ layers).Gives f ∧
      solve rule attempts f.traced config x0 (.start [] inherited) =
        (ended.1, { ended.2 with objective := calls }) ∧
      ended.2.objective = (p.wrapped σ layers).replay o calls ∧
      Fits p.unknowns calls ended.2.views ∧
      ∀ fault, ended.1 = .error (.fault fault) →
        Excuses p.answers p.Decomposes rule x0 calls ended.2.views fault := by
  intro ended
  obtain ⟨f, hgives, hfit, hunknowns, hhessian⟩ := p.exists_answers σ layers
  have hrun : solve rule attempts (p.wrapped σ layers) config x0 (.start o inherited) =
      (ended.1, ended.2) := rfl
  obtain ⟨calls, hcalls, htraced⟩ := exists_calls hgives hrun
  have hends := solve_fits hfit rule attempts config x0 inherited
  refine ⟨f, calls, hgives, htraced, hcalls, ?_⟩
  cases hresult : ended.1 with
  | ok solution =>
      rw [hresult] at htraced
      exact ⟨hunknowns ▸ hends.answer htraced, nofun⟩
  | error stop =>
      rw [hresult] at htraced
      obtain ⟨hfits, hexcused⟩ := hends.stop htraced
      refine ⟨hunknowns ▸ hfits, ?_⟩
      rintro fault hfault
      cases hfault
      cases hexcused fault rfl with
      | unsettled => exact .unsettled
      | breakdown harrived hcall hm hbreaks =>
          refine .breakdown harrived hcall ?_ hbreaks
          rwa [Rule.Decomposes, hhessian] at hm

end Downhill
