import Downhill.Proofs.Evaluation.Recording
import Downhill.Proofs.Number.Order
import Downhill.Proofs.Run.Outcome

/-! # Values along a run

An accepted step ends where the line search looked last, and the value there is lower, or equal on a
flat direction. A run of accepted steps is therefore a descent, and so is the history of a recorder
that has watched it.
-/

namespace Downhill

variable {σ α : Type} [Scalar α]

/-! ## One step -/

theorem LineSearch.descends_of_acceptable {alpha fx slope t ft : α}
    (h : acceptable alpha fx slope t ft = true) :
    ft < fx ∨ (ft == fx) = true ∧ (slope == (0.0 : α)) = true := by
  simp only [acceptable, descends, Bool.and_eq_true, Bool.or_eq_true, decide_eq_true_eq] at h
  exact h.1

/-- The step of `view` ends at `next`, the point its line search looked at last; the value there is
lower than where the step began, or the same if the slope is zero. -/
structure Falls (f : Answers α) (config : SearchConfig α) (view : View α) (next : Vec α) :
    Prop where
  moved : view.x.move view.step view.direction = .ok next
  tested : (f.search view.x view.direction view.gradient config).2.getLast? = some (.value next)
  value : ∃ fx ft slope, f.value view.x = .ok fx ∧ f.value next = .ok ft ∧ view.slope = .ok slope ∧
    (ft < fx ∨ (ft == fx) = true ∧ (slope == (0.0 : α)) = true)

/-- The slope along the direction is not zero. -/
def View.Steep (view : View α) : Prop :=
  ∃ slope, view.slope = .ok slope ∧ ¬ (slope == (0.0 : α)) = true

/-! ## Runs -/

/-- The points of a run whose views lead to `x`. -/
def route (views : List (View α)) (x : Vec α) : List (Vec α) := views.map View.x ++ [x]

/-- The values along a route never rise, and after a steep step they stay below the value where it
began; so the point where it began is not visited again. -/
structure Descending (f : Answers α) (x0 : Vec α) (views : List (View α)) (solution : Solution α)
    (values : List α) : Prop where
  values_eq : (route views solution.x).map f.value = values.map .ok
  last_eq : values.getLast? = some solution.value
  below_start : ∃ value, f.value x0 = .ok value ∧ solution.value ≤ value
  falling : values.Pairwise fun earlier later => later ≤ earlier
  strict : ∀ (i : Nat) (view : View α), views[i]? = some view → view.Steep → ∀ j > i,
    ∀ earlier later, values[i]? = some earlier → values[j]? = some later → later < earlier
  fresh : ∀ (i : Nat) (view : View α), views[i]? = some view → view.Steep → ∀ j > i,
    (route views solution.x)[j]? ≠ some view.x

/-- What the values do along the views of a run with the given result. -/
structure NeverRises (f : Answers α) (config : SearchConfig α) (x0 : Vec α) (views : List (View α))
    (result : Except (Stop α) (Solution α)) : Prop where
  falls : ∀ (i : Nat) (view : View α), views[i]? = some view → view.status = .accepted →
    ∃ next, Falls f config view next ∧
      (∀ later : View α, views[i + 1]? = some later → later.x = next) ∧
      (∀ solution, result = .ok solution → i + 1 = views.length → solution.x = next)
  descending : ∀ solution, result = .ok solution → 0 < solution.iterations →
    (∀ view ∈ views, view.status = .accepted) → ∃ values, Descending f x0 views solution values

/-! ## Points and values -/

section Route

variable {f : Answers α} {x0 x : Vec α} {views : List (View α)} {view : View α} {i : Nat}

omit [Scalar α] in
theorem route_of_view (h : views[i]? = some view) : (route views x)[i]? = some view.x := by
  obtain ⟨hi, -⟩ := List.getElem?_eq_some_iff.mp h
  rw [route, List.getElem?_append_left (by simpa using hi), List.getElem?_map, h, Option.map_some]

omit [Scalar α] in
theorem exists_values (points : List (Vec α)) (h : ∀ x ∈ points, ∃ v, f.value x = .ok v) :
    ∃ values : List α, points.map f.value = values.map .ok := by
  induction points with
  | nil => exact ⟨[], rfl⟩
  | cons x points ih =>
      obtain ⟨v, hv⟩ := h x (by simp)
      obtain ⟨values, hvalues⟩ := ih fun y hy => h y (by simp [hy])
      exact ⟨v :: values, by simp [hv, hvalues]⟩

omit [Scalar α] in
theorem value_of_route {values : List α} (hvalues : (route views x).map f.value = values.map .ok)
    {point : Vec α} {value : α} (hpoint : (route views x)[i]? = some point)
    (hvalue : f.value point = .ok value) : values[i]? = some value := by
  have hi := congrArg (·[i]?) hvalues
  simp only [List.getElem?_map, hpoint, Option.map_some, hvalue] at hi
  obtain ⟨v, hv, heq⟩ := Option.map_eq_some_iff.mp hi.symm
  cases heq
  exact hv

omit [Scalar α] in
theorem length_of_route {values : List α}
    (hvalues : (route views x).map f.value = values.map .ok) :
    values.length = views.length + 1 := by
  simpa [route] using (congrArg List.length hvalues).symm

variable [Kernel α] {rule : Rule α} {attempts : Nat} {config : SolverConfig α}
  {inherited : Option α}

/-- A step ends at the next point of the route. -/
theorem Chronicle.route_succ (h : Chronicle f rule attempts config x0 inherited views)
    (harrived : reached x0 views = .ok x) (hview : views[i]? = some view) {next : Vec α}
    (hmoved : view.x.move view.step view.direction = .ok next) :
    (route views x)[i + 1]? = some next := by
  cases hlater : views[i + 1]? with
  | some later =>
      have hx := h.moves hview hlater
      rw [hmoved] at hx
      cases hx
      exact route_of_view hlater
  | none =>
      -- The last view leads to where the run has arrived.
      obtain ⟨hi, -⟩ := List.getElem?_eq_some_iff.mp hview
      have hlength : i + 1 = views.length := by
        have := List.getElem?_eq_none_iff.mp hlater
        omega
      have hx := reached_take_succ x0 hview
      rw [hlength, List.take_length, harrived, hmoved] at hx
      cases hx
      simp [route, hlength]

/-- Every point of a run has a gradient if the last one has. -/
theorem Chronicle.answered {x gradient : Vec α}
    (h : Chronicle f rule attempts config x0 inherited views)
    (hgradient : f.gradient x = .ok gradient) :
    ∀ y ∈ route views x, ∃ gradient, f.gradient y = .ok gradient := by
  intro y hy
  simp only [route, List.mem_append, List.mem_map, List.mem_singleton] at hy
  rcases hy with ⟨view, hview, rfl⟩ | rfl
  · obtain ⟨i, hi⟩ := List.getElem?_of_mem hview
    exact ⟨_, (h.shown i view hi).unsettled.gradient_eq⟩
  · exact ⟨gradient, hgradient⟩

theorem Shown.falls {carried : Option α} (h : Shown f rule attempts config carried view)
    (haccepted : view.status = .accepted) : ∃ next, Falls f config.lineSearch view next := by
  obtain ⟨outcome, hsearch, hstep, hstatus⟩ := h.searched
  have hsearched := LineSearch.search_spec hsearch
  obtain ⟨fx, next, hfx, hlast, hpasses⟩ := hsearched.passes (hstatus.trans haccepted)
  obtain ⟨ft, hft, hacceptable⟩ := hpasses.acceptable
  exact ⟨next, hstep ▸ hpasses.trial_eq, hlast, fx, ft, outcome.slope, hfx, hft,
    hsearched.slope, LineSearch.descends_of_acceptable hacceptable⟩

end Route

/-! ## Descents -/

section Descents

variable [Scalar.Ordered α] {f : Answers α} {search : SearchConfig α} {x0 x : Vec α}
  {views : List (View α)} {values : List α}

theorem Falls.value_le {view : View α} {next : Vec α} (h : Falls f search view next) :
    ∃ before after, f.value view.x = .ok before ∧ f.value next = .ok after ∧ after ≤ before ∧
      (view.Steep → after < before) := by
  obtain ⟨before, after, slope, hbefore, hafter, hslope, hlt | ⟨hbeq, hflat⟩⟩ := h.value
  · exact ⟨before, after, hbefore, hafter, Scalar.Ordered.le_of_lt hlt, fun _ => hlt⟩
  · refine ⟨before, after, hbefore, hafter, Scalar.Ordered.le_of_beq hbeq, ?_⟩
    rintro ⟨slope', hslope', hsteep⟩
    rw [hslope] at hslope'
    cases hslope'
    exact absurd hflat hsteep

/-- Each view falls to the next point of the route. -/
def FallsThroughout (f : Answers α) (search : SearchConfig α) (views : List (View α))
    (x : Vec α) : Prop :=
  ∀ (i : Nat) (view : View α), views[i]? = some view →
    ∃ next, Falls f search view next ∧ (route views x)[i + 1]? = some next

namespace FallsThroughout

variable (h : FallsThroughout f search views x)

include h

theorem exists_values {last : α} (hlast : f.value x = .ok last) :
    ∃ values : List α, (route views x).map f.value = values.map .ok ∧
      values.getLast? = some last := by
  have hpoints : ∀ point ∈ route views x, ∃ v, f.value point = .ok v := by
    intro point hpoint
    simp only [route, List.mem_append, List.mem_map, List.mem_singleton] at hpoint
    rcases hpoint with ⟨view, hview, rfl⟩ | rfl
    · obtain ⟨i, hi⟩ := List.getElem?_of_mem hview
      obtain ⟨next, hfalls, -⟩ := h i view hi
      obtain ⟨before, _, hbefore, -⟩ := hfalls.value_le
      exact ⟨before, hbefore⟩
    · exact ⟨last, hlast⟩
  obtain ⟨values, hvalues⟩ := Downhill.exists_values _ hpoints
  refine ⟨values, hvalues, ?_⟩
  have hend := congrArg List.getLast? hvalues
  simpa [route, hlast, eq_comm] using hend

variable (hvalues : (route views x).map f.value = values.map .ok)

include hvalues

theorem next_le {i : Nat} {view : View α} {earlier later : α} (hview : views[i]? = some view)
    (hearlier : values[i]? = some earlier) (hlater : values[i + 1]? = some later) :
    later ≤ earlier ∧ (view.Steep → later < earlier) := by
  obtain ⟨next, hfalls, hnext⟩ := h i view hview
  obtain ⟨before, after, hbefore, hafter, hle⟩ := hfalls.value_le
  rw [value_of_route hvalues (route_of_view hview) hbefore] at hearlier
  rw [value_of_route hvalues hnext hafter] at hlater
  cases hearlier
  cases hlater
  exact hle

/-- However far behind a step a value lies, it is at most the value where the step began. -/
theorem later_le {i j : Nat} {view : View α} {earlier later : α} (hview : views[i]? = some view)
    (hij : i < j) (hearlier : values[i]? = some earlier) (hlater : values[j]? = some later) :
    later ≤ earlier ∧ (view.Steep → later < earlier) := by
  -- Not-a-number is not at most itself, so the induction starts one step behind, not at `i`.
  induction j, hij using Nat.le_induction generalizing later with
  | base => exact h.next_le hvalues hview hearlier hlater
  | succ j hij ih =>
      have hlength := length_of_route hvalues
      have hj : j + 1 < values.length := (List.getElem?_eq_some_iff.mp hlater).1
      have hbetween : values[j]? = some values[j] := List.getElem?_eq_getElem (by omega)
      have hthere : views[j]? = some views[j] := List.getElem?_eq_getElem (by omega)
      obtain ⟨hle, hlt⟩ := ih hbetween
      have hnext := (h.next_le hvalues hthere hbetween hlater).1
      exact ⟨Scalar.Ordered.le_trans hnext hle,
        fun hsteep => Scalar.Ordered.lt_of_le_of_lt hnext (hlt hsteep)⟩

theorem falling : values.Pairwise fun earlier later => later ≤ earlier := by
  rw [List.pairwise_iff_getElem]
  intro i j hi hj hij
  have hlength := length_of_route hvalues
  have hview : views[i]? = some views[i] := List.getElem?_eq_getElem (by omega)
  exact (h.later_le hvalues hview hij (List.getElem?_eq_getElem hi)
    (List.getElem?_eq_getElem hj)).1

/-- The value at the end of a route is at most the value at its start. -/
theorem last_le {last : α} (hpos : 0 < views.length) (hlast : values.getLast? = some last) :
    ∃ value, f.value views[0].x = .ok value ∧ last ≤ value := by
  have hview : views[0]? = some views[0] := List.getElem?_eq_getElem hpos
  obtain ⟨next, hfalls, -⟩ := h 0 _ hview
  obtain ⟨value, -, hvalue, -⟩ := hfalls.value_le
  have hend : values[views.length]? = some last := by
    rw [← hlast, List.getLast?_eq_getElem?, length_of_route hvalues, Nat.add_sub_cancel]
  have hfirst := value_of_route hvalues (route_of_view hview) hvalue
  exact ⟨value, hvalue, (h.later_le hvalues hview hpos hfirst hend).1⟩

/-- A point before a steep step is not visited again. -/
theorem fresh {i j : Nat} {view : View α} (hview : views[i]? = some view) (hsteep : view.Steep)
    (hij : i < j) : (route views x)[j]? ≠ some view.x := by
  intro hback
  obtain ⟨next, hfalls, -⟩ := h i view hview
  obtain ⟨value, -, hvalue, -⟩ := hfalls.value_le
  have hthere := value_of_route hvalues (route_of_view hview) hvalue
  have hagain := value_of_route hvalues hback hvalue
  exact Scalar.Ordered.lt_irrefl value ((h.later_le hvalues hview hij hthere hagain).2 hsteep)

end FallsThroughout

end Descents

/-! ## Solves -/

section Solves

variable [Kernel α] {rule : Rule α} {attempts : Nat} {config : SolverConfig α} {x0 : Vec α}
  {inherited : Option α} {f : Answers α} {problem : Objective σ α} {o : σ} {session : Session σ α}

theorem Finished.fallsThroughout {s : Session (List (Call α)) α} {solution : Solution α}
    (h : Finished f rule attempts config x0 inherited s solution)
    (haccepted : ∀ view ∈ s.views.toList, view.status = .accepted) :
    FallsThroughout f config.lineSearch s.views.toList solution.x := by
  intro i view hview
  obtain ⟨next, hfalls⟩ := (h.chronicle.shown i view hview).falls
    (haccepted view (List.mem_of_getElem? hview))
  exact ⟨next, hfalls, h.chronicle.route_succ h.arrived hview hfalls.moved⟩

variable [Scalar.Ordered α]

theorem Finished.descending {s : Session (List (Call α)) α} {solution : Solution α}
    (h : Finished f rule attempts config x0 inherited s solution) (hpos : 0 < solution.iterations)
    (haccepted : ∀ view ∈ s.views.toList, view.status = .accepted) :
    ∃ values, Descending f x0 s.views.toList solution values := by
  have hfalls := h.fallsThroughout haccepted
  have hlength : 0 < s.views.toList.length := by
    rw [Array.length_toList, ← h.iterations_eq]
    exact hpos
  have hfirst : s.views.toList[0].x = x0 := by
    simpa using (h.chronicle.stands 0 _ (List.getElem?_eq_getElem hlength)).symm
  obtain ⟨values, hvalues, hlast⟩ := hfalls.exists_values h.value_eq
  obtain ⟨value, hvalue, hle⟩ := hfalls.last_le hvalues hlength hlast
  refine ⟨values, hvalues, hlast, ⟨value, hfirst ▸ hvalue, hle⟩, hfalls.falling hvalues, ?_, ?_⟩
  · intro i view hview hsteep j hij earlier later hearlier hlater
    exact (hfalls.later_le hvalues hview hij hearlier hlater).2 hsteep
  · intro i view hview hsteep j hij
    exact hfalls.fresh hvalues hview hsteep hij

theorem solve_neverRises (h : problem.Gives f) {result : Except (Stop α) (Solution α)}
    (hrun : solve rule attempts problem config x0 (.start o inherited) = (result, session)) :
    NeverRises f config.lineSearch x0 session.views.toList result := by
  have hchronicle := solve_chronicle h hrun
  constructor
  · intro i view hview haccepted
    obtain ⟨next, hfalls⟩ := (hchronicle.shown i view hview).falls haccepted
    refine ⟨next, hfalls, ?_, ?_⟩
    · intro later hlater
      have hmoves := hchronicle.moves hview hlater
      rw [hfalls.moved] at hmoves
      cases hmoves
      rfl
    · intro solution hok hlast
      subst hok
      obtain ⟨calls, -, hfinished⟩ := solve_finished h hrun
      have hnext := hchronicle.route_succ hfinished.arrived hview hfalls.moved
      rw [hlast] at hnext
      simpa [route] using hnext
  · intro solution hok hpos haccepted
    subst hok
    obtain ⟨calls, -, hfinished⟩ := solve_finished h hrun
    exact hfinished.descending hpos haccepted

/-- Whatever is solved, values never rise across accepted steps; and in the history of a recorder
that has watched a run of accepted steps, the values are those along its route. -/
theorem solve_descends (h : problem.Gives f) (rule : Rule α) (attempts : Nat)
    (config : SolverConfig α) (x0 : Vec α) (inherited : Option α) (o : σ) :
    (∀ result session,
      solve rule attempts problem config x0 (.start o inherited) = (result, session) →
      NeverRises f config.lineSearch x0 session.views.toList result) ∧
    (∀ solution session, solve rule attempts (Recorder.objective problem) config x0
        (.start (.start o) inherited) = (.ok solution, session) → 0 < solution.iterations →
      (∀ view ∈ session.views.toList, view.status = .accepted) →
      Descending f x0 session.views.toList solution
        (session.objective.observations.toList.map Observation.value)) := by
  refine ⟨fun result session hrun => solve_neverRises h hrun, ?_⟩
  intro solution session hrun hpos haccepted
  obtain ⟨calls, hcalls, hfinished⟩ := solve_finished (recorder_gives h) hrun
  obtain ⟨values, hdescending⟩ := hfinished.descending hpos haccepted
  obtain ⟨gradient, hlast, -⟩ := hfinished.gradient_eq
  have hhistory : session.objective.observations.toList.map Observation.value = values := by
    rw [← history_values, hcalls, history_replay h, hfinished.gradients]
    exact readings_values (hfinished.chronicle.answered hlast) hdescending.values_eq
  rw [hhistory]
  exact { hdescending with }

end Solves

/-- A recorded run on the saddle that starts where the Hessian is indefinite: every step is
accepted, and the history descends. -/
theorem saddle_descends :
    ∃ solution session,
      solve (.stabilised (.shiftByGamma 10.0)) 100
        (Recorder.objective ((Problem.saddle .default).objective Unit)) ⟨1e-4, 10, .default⟩
        [0.5, 0.2] (.start (.start ())) = (.ok solution, session) ∧
      solution.iterations = 4 ∧
      Descending (Problem.saddle (.default : Saddle Float)).answers [0.5, 0.2]
        session.views.toList solution
        (session.objective.observations.toList.map Observation.value) := by
  obtain ⟨solution, session, hrun, htest⟩ := exists_of_answersWith
    (solve (.stabilised (.shiftByGamma 10.0)) 100
      (Recorder.objective ((Problem.saddle .default).objective Unit)) ⟨1e-4, 10, .default⟩
      [0.5, 0.2])
    (.start (.start ())) (fun solution session => decide (solution.iterations = 4 ∧
      ∀ view ∈ session.views.toList, view.status = .accepted))
    (by decide +kernel)
  obtain ⟨hfour, haccepted⟩ := of_decide_eq_true htest
  exact ⟨solution, session, hrun, hfour,
    (solve_descends (Problem.objective_gives _) _ _ _ _ _ _).2 solution session hrun (by omega)
      haccepted⟩

end Downhill
