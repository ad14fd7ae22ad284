import Downhill.Proofs.Search.Backtracking

/-! # The first acceptable step

The steps that a line search may try form a geometric sequence. On a slope that does not rise, the
search looks at their trial points in order and stops at the first acceptable one, or at the last
one that the cap allows; so it always ends, whatever the values are.
-/

namespace Downhill

variable {σ α : Type} [Scalar α]

/-- The step that is left after `k` shrinks. -/
def SearchConfig.step (config : SearchConfig α) : Nat → α
  | 0 => config.initialStep
  | k + 1 => config.step k * config.tau

/-- The cap has no part in the steps. -/
@[simp] theorem SearchConfig.step_maxShrinks (config : SearchConfig α) (cap k : Nat) :
    ({ config with maxShrinks := cap } : SearchConfig α).step k = config.step k := by
  induction k with
  | zero => rfl
  | succ k ih => simp only [step, ih]

namespace LineSearch

/-! ## Trial points -/

/-- The trial point at distance `t` along `d`. -/
def trial (x d : Vec α) (t : α) : Vec α := List.zipWith (fun a b => t * b + a) x d

theorem move_eq_trial {x d : Vec α} (h : x.length = d.length) (t : α) :
    x.move t d = .ok (trial x d t) := if_pos h

theorem length_trial {x d : Vec α} (h : x.length = d.length) (t : α) :
    (trial x d t).length = x.length := by
  simp [trial, h]

/-- The first `n` trial points of a search. -/
def trials (config : SearchConfig α) (x d : Vec α) (n : Nat) : List (Vec α) :=
  (List.range n).map fun k => trial x d (config.step k)

@[simp] theorem length_trials (config : SearchConfig α) (x d : Vec α) (n : Nat) :
    (trials config x d n).length = n := by
  simp [trials]

theorem trials_succ (config : SearchConfig α) (x d : Vec α) (n : Nat) :
    trials config x d (n + 1) = trials config x d n ++ [trial x d (config.step n)] := by
  simp [trials, List.range_succ]

/-! ## Acceptable steps -/

section Acceptable

variable {value : Vec α → α} {config : SearchConfig α} {x d : Vec α} {slope : α} {k : Nat}

/-- After `k` shrinks the value at the trial point is below the one at `x`, or equal to it on a
flat slope, and it stays within the bound on the decrease and the allowance for round-off. -/
structure AcceptableAt (value : Vec α → α) (config : SearchConfig α) (x d : Vec α) (slope : α)
    (k : Nat) : Prop where
  descends : value (trial x d (config.step k)) < value x ∨
    (value (trial x d (config.step k)) == value x) = true ∧ (slope == (0.0 : α)) = true
  sufficient : value (trial x d (config.step k)) ≤
    value x + config.alpha * config.step k * slope +
      slack (value x) (config.alpha * config.step k * slope)

theorem acceptableAt_iff : AcceptableAt value config x d slope k ↔
    acceptable config.alpha (value x) slope (config.step k)
      (value (trial x d (config.step k))) = true := by
  simp only [acceptable, descends, Bool.and_eq_true, Bool.or_eq_true, decide_eq_true_eq]
  exact ⟨fun h => ⟨h.descends, h.sufficient⟩, fun h => ⟨h.1, h.2⟩⟩

end Acceptable

/-! ## The search -/

/-- How a search ends on a slope that does not rise: with the first acceptable step, or with the
last one if there is none. -/
structure TakesFirst (value : Vec α → α) (config : SearchConfig α) (x d : Vec α) (slope : α)
    (outcome : SearchOutcome α) : Prop where
  slope_eq : outcome.slope = slope
  step_eq : outcome.step = config.step outcome.shrinks
  within : outcome.shrinks ≤ config.maxShrinks
  descending : outcome.status ≠ .notDescent
  earlier : ∀ k < outcome.shrinks, ¬ AcceptableAt value config x d slope k
  accepted_iff : outcome.status = .accepted ↔ AcceptableAt value config x d slope outcome.shrinks
  exhausted : outcome.status = .shrinkLimit → outcome.shrinks = config.maxShrinks

variable {f : Answers α} {config : SearchConfig α} {x d : Vec α} {value : Vec α → α}

omit [Scalar α] in
theorem AcceptableAt.takesFirst [Scalar α] {slope : α} {k : Nat}
    (h : AcceptableAt value config x d slope k) (hcap : k ≤ config.maxShrinks)
    (hrefused : ∀ j < k, ¬ AcceptableAt value config x d slope j) :
    TakesFirst value config x d slope ⟨config.step k, .accepted, k, slope⟩ where
  slope_eq := rfl
  step_eq := rfl
  within := hcap
  descending := nofun
  earlier := hrefused
  accepted_iff := iff_of_true rfl h
  exhausted := nofun

/-- Where all values are known, a search is an equation for each trial. -/
theorem shrink_apply (hsize : x.length = d.length)
    (hvalue : ∀ y : Vec α, y.length = x.length → f.value y = .ok (value y)) (fx slope : α)
    (remaining shrinks : Nat) (t : α) (calls : List (Call α)) :
    shrink f.traced config x d fx slope remaining shrinks t calls =
      if acceptable config.alpha fx slope t (value (trial x d t)) then
        (.ok ⟨t, .accepted, shrinks, slope⟩, calls ++ [.value (trial x d t)])
      else match remaining with
        | 0 => (.ok ⟨t, .shrinkLimit, shrinks, slope⟩, calls ++ [.value (trial x d t)])
        | rest + 1 => shrink f.traced config x d fx slope rest (shrinks + 1) (t * config.tau)
            (calls ++ [.value (trial x d t)]) := by
  have hlook : f.traced.value (trial x d t) calls =
      (.ok (value (trial x d t)), calls ++ [.value (trial x d t)]) := by
    simp only [Answers.traced, hvalue _ (length_trial hsize t)]
  rw [shrink.eq_def]
  dsimp only
  rw [bind_apply, move_eq_trial hsize]
  dsimp only [Eval.pure]
  rw [bind_apply, hlook]
  dsimp only
  split
  · rfl
  · cases remaining <;> rfl

/-- A search that has refused the first `k` steps goes on to the first acceptable one. -/
theorem shrink_takesFirst (hsize : x.length = d.length)
    (hvalue : ∀ y : Vec α, y.length = x.length → f.value y = .ok (value y)) (slope : α)
    (remaining : Nat) {k : Nat} (hcap : k + remaining = config.maxShrinks)
    (hrefused : ∀ j < k, ¬ AcceptableAt value config x d slope j) (start : List (Call α)) :
    ∃ outcome, TakesFirst value config x d slope outcome ∧
      shrink f.traced config x d (value x) slope remaining k (config.step k)
          (start ++ (trials config x d k).map Call.value) =
        (.ok outcome, start ++ (trials config x d (outcome.shrinks + 1)).map Call.value) := by
  induction remaining generalizing k with
  | zero =>
      rw [shrink_apply hsize hvalue]
      by_cases hacceptable : AcceptableAt value config x d slope k
      · rw [if_pos (acceptableAt_iff.mp hacceptable)]
        exact ⟨_, hacceptable.takesFirst (Nat.le_of_eq hcap) hrefused, by simp [trials_succ]⟩
      · rw [if_neg (mt acceptableAt_iff.mpr hacceptable)]
        refine ⟨⟨config.step k, .shrinkLimit, k, slope⟩, ?_, by simp [trials_succ]⟩
        exact ⟨rfl, rfl, Nat.le_of_eq hcap, nofun, hrefused, iff_of_false nofun hacceptable,
          fun _ => hcap⟩
  | succ remaining ih =>
      rw [shrink_apply hsize hvalue]
      by_cases hacceptable : AcceptableAt value config x d slope k
      · rw [if_pos (acceptableAt_iff.mp hacceptable)]
        have hbelow : k ≤ config.maxShrinks := by omega
        exact ⟨_, hacceptable.takesFirst hbelow hrefused, by simp [trials_succ]⟩
      · rw [if_neg (mt acceptableAt_iff.mpr hacceptable)]
        have hrefused' : ∀ j < k + 1, ¬ AcceptableAt value config x d slope j := by
          intro j hj
          rcases Nat.lt_succ_iff_lt_or_eq.mp hj with hlt | rfl
          · exact hrefused j hlt
          · exact hacceptable
        simpa [trials_succ, SearchConfig.step] using ih (by omega) hrefused'

/-- What a line search does, in terms of the values alone: on a rising slope it returns the initial
step without looking at a value, else it takes the first acceptable step that the cap allows. -/
structure Backtracks (value : Vec α → α) (config : SearchConfig α) (x d : Vec α) (slope : α)
    (outcome : SearchOutcome α) (looks : List (Vec α)) : Prop where
  slope_eq : outcome.slope = slope
  step_eq : outcome.step = config.step outcome.shrinks
  within : outcome.shrinks ≤ config.maxShrinks
  notDescent_iff : outcome.status = .notDescent ↔ (0.0 : α) < slope
  rising : outcome.status = .notDescent → outcome.shrinks = 0 ∧ looks = []
  accepted_iff : ¬ (0.0 : α) < slope → (outcome.status = .accepted ↔
    ∃ k ≤ config.maxShrinks, AcceptableAt value config x d slope k)
  first : outcome.status = .accepted → AcceptableAt value config x d slope outcome.shrinks ∧
    ∀ k < outcome.shrinks, ¬ AcceptableAt value config x d slope k
  exhausted : outcome.status = .shrinkLimit → outcome.shrinks = config.maxShrinks
  looks_eq : outcome.status ≠ .notDescent → looks.length = outcome.shrinks + 2 ∧
    looks = x :: trials config x d (outcome.shrinks + 1)

omit [Scalar α] in
theorem TakesFirst.backtracks [Scalar α] {slope : α} {outcome : SearchOutcome α}
    (h : TakesFirst value config x d slope outcome) (hdown : ¬ (0.0 : α) < slope) :
    Backtracks value config x d slope outcome (x :: trials config x d (outcome.shrinks + 1)) where
  slope_eq := h.slope_eq
  step_eq := h.step_eq
  within := h.within
  notDescent_iff := iff_of_false h.descending hdown
  rising hrising := absurd hrising h.descending
  accepted_iff _ := by
    refine ⟨fun haccepted => ⟨_, h.within, h.accepted_iff.mp haccepted⟩, ?_⟩
    rintro ⟨k, hk, hacceptable⟩
    cases hstatus : outcome.status with
    | accepted => rfl
    | notDescent => exact absurd hstatus h.descending
    | shrinkLimit =>
        -- All steps that the cap allows have been refused, the last one included.
        rw [← h.exhausted hstatus] at hk
        rcases Nat.lt_or_eq_of_le hk with hlt | rfl
        · exact absurd hacceptable (h.earlier k hlt)
        · exact hstatus.symm.trans (h.accepted_iff.mpr hacceptable)
  first haccepted := ⟨h.accepted_iff.mp haccepted, h.earlier⟩
  exhausted := h.exhausted
  looks_eq _ := ⟨by simp, rfl⟩

/-- If the cap allows the first acceptable step, the search returns it. -/
theorem Backtracks.outcome_eq {slope : α} {outcome : SearchOutcome α} {looks : List (Vec α)}
    {k : Nat} (h : Backtracks value config x d slope outcome looks) (hdown : ¬ (0.0 : α) < slope)
    (hcap : k ≤ config.maxShrinks) (hacceptable : AcceptableAt value config x d slope k)
    (hrefused : ∀ j < k, ¬ AcceptableAt value config x d slope j) :
    outcome = ⟨config.step k, .accepted, k, slope⟩ := by
  have haccepted := (h.accepted_iff hdown).mpr ⟨k, hcap, hacceptable⟩
  obtain ⟨htaken, hearlier⟩ := h.first haccepted
  have hshrinks : outcome.shrinks = k := by
    rcases Nat.lt_trichotomy outcome.shrinks k with hlt | heq | hgt
    · exact absurd htaken (hrefused _ hlt)
    · exact heq
    · exact absurd hacceptable (hearlier k hgt)
  obtain ⟨step, status, shrinks, slope'⟩ := outcome
  have hstep := h.step_eq
  have hslope := h.slope_eq
  dsimp only at hshrinks haccepted hstep hslope
  rw [hstep, haccepted, hshrinks, hslope]

/-- Whatever the values are, and whether the configuration is valid or not, a line search returns
the first acceptable step, and it looks at the values up to there and at no others. -/
theorem backtracking_backtracks {problem : Objective σ α} (h : problem.Gives f)
    (x d gradient : Vec α) (hdirection : x.length = d.length)
    (hgradient : gradient.length = d.length)
    (hvalue : ∀ y : Vec α, y.length = x.length → f.value y = .ok (value y))
    (config : SearchConfig α) (o : σ) :
    ∃ outcome looks, Backtracks value config x d (Vec.inner gradient d) outcome looks ∧
      backtracking problem x d gradient config o =
        (.ok outcome, problem.replay o (looks.map Call.value)) := by
  have hslope : Vec.dot gradient d = .ok (Vec.inner gradient d) := if_pos hgradient
  have hstart : f.traced.value x [] = (.ok (value x), [.value x]) := by
    simp [Answers.traced, hvalue x rfl]
  rw [backtracking_eq_search h]
  unfold Answers.search backtracking
  rw [bind_apply, hslope]
  dsimp only [Eval.pure]
  by_cases hup : (0.0 : α) < Vec.inner gradient d
  · rw [if_pos hup]
    refine ⟨⟨config.initialStep, .notDescent, 0, Vec.inner gradient d⟩, [], ?_, rfl⟩
    exact ⟨rfl, rfl, Nat.zero_le _, iff_of_true rfl hup, fun _ => ⟨rfl, rfl⟩,
      fun hdown => absurd hup hdown, fun hstatus => (by cases hstatus),
      fun hstatus => (by cases hstatus), fun hstatus => absurd rfl hstatus⟩
  · rw [if_neg hup, bind_apply, hstart]
    obtain ⟨outcome, htakes, hshrink⟩ := shrink_takesFirst hdirection hvalue
      (Vec.inner gradient d) config.maxShrinks (Nat.zero_add _) (by simp) [.value x]
    refine ⟨outcome, _, htakes.backtracks hup, ?_⟩
    have hsearch : shrink f.traced config x d (value x) (Vec.inner gradient d) config.maxShrinks 0
        config.initialStep [.value x] =
          (.ok outcome, (x :: trials config x d (outcome.shrinks + 1)).map Call.value) := hshrink
    dsimp only
    rw [hsearch]

/-- From the usual start in the Rosenbrock valley, the search against the gradient shrinks the step
26 times; so it looks at 28 values. -/
theorem rosenbrock_backtracks :
    ∃ outcome looks,
      (outcome.status = .accepted ∧ outcome.shrinks = 26) ∧ looks.length = 28 ∧
      backtracking ((Problem.rosenbrock (.default : Rosenbrock Float)).objective Unit)
        [-1.2, 1.0] [215.6, 88.0] [-215.6, -88.0] .default () = (.ok outcome, ()) ∧
      Backtracks (fun y => ((Rosenbrock.default.value y).toOption).getD 0.0) .default
        [-1.2, 1.0] [215.6, 88.0] (Vec.inner [-215.6, -88.0] [215.6, 88.0]) outcome looks := by
  have hvalue (y : Vec Float) (hy : y.length = 2) :
      (Rosenbrock.default : Rosenbrock Float).value y =
        .ok (((Rosenbrock.default.value y).toOption).getD 0.0) :=
    match y, hy with
    | [_, _], _ => rfl
  obtain ⟨outcome, looks, hbacktracks, hsearch⟩ := backtracking_backtracks
    (Problem.objective_gives (.rosenbrock (.default : Rosenbrock Float)))
    [-1.2, 1.0] [215.6, 88.0] [-215.6, -88.0] (by simp) (by simp) hvalue .default ()
  obtain ⟨found, _, hfound, htest⟩ := exists_of_answersWith
    (backtracking ((Problem.rosenbrock (.default : Rosenbrock Float)).objective Unit)
      [-1.2, 1.0] [215.6, 88.0] [-215.6, -88.0] .default) ()
    (fun outcome _ => outcome.status = .accepted && outcome.shrinks == 26) (by decide +kernel)
  obtain rfl : found = outcome := by simpa using congrArg Prod.fst (hfound.symm.trans hsearch)
  simp only [Bool.and_eq_true, decide_eq_true_eq, beq_iff_eq] at htest
  obtain ⟨hstatus, hshrinks⟩ := htest
  refine ⟨found, looks, ⟨hstatus, hshrinks⟩, ?_, hsearch, hbacktracks⟩
  rw [(hbacktracks.looks_eq (by simp [hstatus])).1, hshrinks]

end LineSearch

end Downhill
