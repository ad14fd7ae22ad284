import Downhill.Proofs.Evaluation.Tracking

/-! # The line search, trial by trial

A line search looks at the value where it starts and then at one trial point after the other. If it
accepts a step, the trial point of that step is the one it looked at last, and the value there is
acceptable.
-/

namespace Downhill

variable {σ α β : Type}

/-! ## Single evaluations -/

section Evaluations

variable {f : Answers α} {x : Vec α} {calls : List (Call α)}

theorem ends_answer {answer : Except Fault β} {answered : β → List (Call α) → Prop}
    {stopped : Fault → List (Call α) → Prop} (hok : ∀ b, answer = .ok b → answered b calls)
    (herror : ∀ fault, answer = .error fault → stopped fault calls) :
    Ends (Eval.pure answer) calls answered stopped := by
  cases answer with
  | ok b => exact hok b rfl
  | error fault => exact herror fault rfl

theorem ends_value {answered : α → List (Call α) → Prop}
    {stopped : Fault → List (Call α) → Prop}
    (hok : ∀ v, f.value x = .ok v → answered v (calls ++ [.value x]))
    (herror : ∀ fault, f.value x = .error fault → stopped fault (calls ++ [.value x])) :
    Ends (f.traced.value x) calls answered stopped := by
  simp only [Ends, Answers.traced]
  cases h : f.value x with
  | ok v => exact hok v h
  | error fault => exact herror fault h

end Evaluations

/-- The evaluations `later` came after `calls`; all of them look at values. -/
def OnlyValues (calls later : List (Call α)) : Prop :=
  ∃ trials : List (Vec α), later = calls ++ trials.map Call.value

namespace OnlyValues

variable {calls later : List (Call α)}

theorem refl (calls : List (Call α)) : OnlyValues calls calls := ⟨[], by simp⟩

theorem value (h : OnlyValues calls later) (x : Vec α) :
    OnlyValues calls (later ++ [.value x]) := by
  obtain ⟨trials, rfl⟩ := h
  exact ⟨trials ++ [x], by simp⟩

theorem gradientPoints (h : OnlyValues calls later) :
    later.filterMap Call.gradientPoint? = calls.filterMap Call.gradientPoint? := by
  obtain ⟨trials, rfl⟩ := h
  have hnone : (trials.map Call.value).filterMap Call.gradientPoint? = [] := by
    simp [List.filterMap_eq_nil_iff, Call.gradientPoint?]
  rw [List.filterMap_append, hnone, List.append_nil]

end OnlyValues

/-! ## The search -/

variable [Scalar α]

/-- The outcome of a line search, with its evaluations in order. -/
def Answers.search (f : Answers α) (x d gradient : Vec α) (config : SearchConfig α) :
    Except Fault (SearchOutcome α) × List (Call α) :=
  LineSearch.backtracking f.traced x d gradient config []

/-- A search over any objective is the one that only keeps its evaluations. -/
theorem backtracking_eq_search {problem : Objective σ α} {f : Answers α} (h : problem.Gives f)
    (x d gradient : Vec α) (config : SearchConfig α) (o : σ) :
    LineSearch.backtracking problem x d gradient config o =
      ((f.search x d gradient config).1, problem.replay o (f.search x d gradient config).2) :=
  mirrors_backtracking (h.mirrored o) config x d gradient []

namespace LineSearch

variable {f : Answers α} {config : SearchConfig α} {x d gradient : Vec α} {fx slope : α}

/-- `trial` lies at the step of `outcome`, and the value there passed the test. -/
structure Passes (f : Answers α) (config : SearchConfig α) (x d : Vec α) (fx : α)
    (outcome : SearchOutcome α) (trial : Vec α) : Prop where
  trial_eq : x.move outcome.step d = .ok trial
  acceptable : ∃ ft, f.value trial = .ok ft ∧
    acceptable config.alpha fx outcome.slope outcome.step ft = true

/-- Where the trials end: the last of them lies at the returned step. -/
structure Tried (f : Answers α) (config : SearchConfig α) (x d : Vec α) (fx slope : α)
    (outcome : SearchOutcome α) (calls : List (Call α)) : Prop where
  slope_eq : outcome.slope = slope
  descending : outcome.status ≠ .notDescent
  passes : outcome.status = .accepted →
    ∃ trial, calls.getLast? = some (.value trial) ∧ Passes f config x d fx outcome trial

/-- A trial is accepted, or it leaves the rest of the search to decide. -/
theorem trial_ends {calls : List (Call α)} {t : α} {shrinks : Nat}
    {rest : Eval (List (Call α)) (SearchOutcome α)}
    {answered : SearchOutcome α → List (Call α) → Prop} {stopped : Fault → List (Call α) → Prop}
    (haccept : ∀ trial, Passes f config x d fx ⟨t, .accepted, shrinks, slope⟩ trial →
      answered ⟨t, .accepted, shrinks, slope⟩ (calls ++ [.value trial]))
    (hrest : ∀ trial, Ends rest (calls ++ [.value trial]) answered stopped)
    (hmove : ∀ fault, x.move t d = .error fault → stopped fault calls)
    (hvalue : ∀ trial fault, x.move t d = .ok trial → f.value trial = .error fault →
      stopped fault (calls ++ [.value trial])) :
    Ends (do
        let trial ← Eval.pure (x.move t d)
        let ft ← f.traced.value trial
        if acceptable config.alpha fx slope t ft then
          return { step := t, status := .accepted, shrinks, slope }
        else rest) calls answered stopped := by
  refine .bind (ends_answer (fun trial htrial => ?_) hmove)
  refine .bind (ends_value (fun ft hft => ?_) fun fault => hvalue trial fault htrial)
  split
  · rename_i hacceptable
    exact .pure (haccept trial ⟨htrial, ft, hft, hacceptable⟩)
  · exact hrest trial

theorem shrink_ends (remaining shrinks : Nat) (t : α) {start calls : List (Call α)}
    (hcalls : OnlyValues start calls) :
    Ends (shrink f.traced config x d fx slope remaining shrinks t) calls
      (fun outcome calls' => OnlyValues start calls' ∧ Tried f config x d fx slope outcome calls')
      (fun _ calls' => OnlyValues start calls') := by
  have haccept (shrinks : Nat) (t : α) {calls : List (Call α)} (hcalls : OnlyValues start calls)
      (trial : Vec α) (hpasses : Passes f config x d fx ⟨t, .accepted, shrinks, slope⟩ trial) :
      OnlyValues start (calls ++ [.value trial]) ∧
        Tried f config x d fx slope ⟨t, .accepted, shrinks, slope⟩ (calls ++ [.value trial]) :=
    ⟨hcalls.value trial, rfl, by simp, fun _ => ⟨trial, by simp, hpasses⟩⟩
  induction remaining generalizing shrinks t calls with
  | zero =>
      unfold shrink
      refine trial_ends (haccept shrinks t hcalls) (fun trial => ?_) (fun _ _ => hcalls)
        fun trial _ _ _ => hcalls.value trial
      exact .pure ⟨hcalls.value trial, rfl, by simp, by simp⟩
  | succ remaining ih =>
      unfold shrink
      exact trial_ends (haccept shrinks t hcalls)
        (fun trial => ih (shrinks + 1) (t * config.tau) (hcalls.value trial)) (fun _ _ => hcalls)
        fun trial _ _ _ => hcalls.value trial

/-- What a line search says of its outcome. -/
structure Searched (f : Answers α) (config : SearchConfig α) (x d gradient : Vec α)
    (outcome : SearchOutcome α) (calls : List (Call α)) : Prop where
  slope : Vec.dot gradient d = .ok outcome.slope
  notDescent_iff : outcome.status = .notDescent ↔ (0.0 : α) < outcome.slope
  passes : outcome.status = .accepted →
    ∃ fx trial, f.value x = .ok fx ∧ calls.getLast? = some (.value trial) ∧
      Passes f config x d fx outcome trial

theorem backtracking_ends (calls : List (Call α)) :
    Ends (backtracking f.traced x d gradient config) calls
      (fun outcome calls' => OnlyValues calls calls' ∧
        Searched f config x d gradient outcome calls')
      (fun _ calls' => OnlyValues calls calls') := by
  unfold backtracking
  refine .bind (ends_answer (fun slope hslope => ?_) fun _ _ => .refl calls)
  split
  · rename_i hup
    exact .pure ⟨.refl calls, hslope, iff_of_true rfl hup, nofun⟩
  · rename_i hdown
    refine .bind (ends_value (fun fx hfx => ?_) fun _ _ => (OnlyValues.refl calls).value x)
    refine (shrink_ends _ _ _ ((OnlyValues.refl calls).value x)).imp ?_ fun _ _ h => h
    rintro outcome calls' ⟨hcalls, htried⟩
    rw [← htried.slope_eq] at hslope hdown
    refine ⟨hcalls, hslope, iff_of_false htried.descending hdown, fun haccepted => ?_⟩
    obtain ⟨trial, hlast, hpasses⟩ := htried.passes haccepted
    exact ⟨fx, trial, hfx, hlast, hpasses⟩

theorem search_onlyValues : OnlyValues [] (f.search x d gradient config).2 :=
  ((backtracking_ends []).imp (fun _ _ h => h.1) fun _ _ h => h).state

theorem search_spec {outcome : SearchOutcome α}
    (h : (f.search x d gradient config).1 = .ok outcome) :
    Searched f config x d gradient outcome (f.search x d gradient config).2 :=
  ((backtracking_ends []).answer (Prod.ext h rfl)).2

theorem search_ends {calls : List (Call α)}
    {answered : SearchOutcome α → List (Call α) → Prop} {stopped : Fault → List (Call α) → Prop}
    (hok : ∀ outcome, (f.search x d gradient config).1 = .ok outcome →
      answered outcome (calls ++ (f.search x d gradient config).2))
    (herror : ∀ fault, (f.search x d gradient config).1 = .error fault →
      stopped fault (calls ++ (f.search x d gradient config).2)) :
    Ends (backtracking f.traced x d gradient config) calls answered stopped := by
  unfold Ends
  rw [backtracking_eq_search f.traced_gives, f.replay_traced]
  cases h : (f.search x d gradient config).1 with
  | ok outcome => exact hok outcome h
  | error fault => exact herror fault h

end LineSearch

/-! ## The number of trials -/

/-- How many values a search with this outcome has looked at: none on an ascent, else the one at the
start and one for each trial. -/
def SearchOutcome.evaluations (outcome : SearchOutcome α) : Nat :=
  match outcome.status with
  | .notDescent => 0
  | .accepted => outcome.shrinks + 2
  | .shrinkLimit => outcome.shrinks + 2

omit [Scalar α] in
theorem SearchOutcome.evaluations_le {outcome : SearchOutcome α} {limit : Nat}
    (h : outcome.shrinks ≤ limit) : outcome.evaluations ≤ limit + 2 := by
  unfold evaluations
  split <;> omega

omit [Scalar α] in
theorem SearchOutcome.evaluations_of_descending {outcome : SearchOutcome α}
    (h : outcome.status ≠ .notDescent) : outcome.evaluations = outcome.shrinks + 2 := by
  unfold evaluations
  split
  · contradiction
  · rfl
  · rfl

namespace LineSearch

variable {f : Answers α} {config : SearchConfig α} {x d gradient : Vec α} {fx slope : α}

/-- Every shrink stands between two trials. -/
theorem shrink_trials (remaining shrinks : Nat) (t : α) (calls : List (Call α)) :
    Ends (shrink f.traced config x d fx slope remaining shrinks t) calls
      (fun outcome calls' => outcome.status ≠ .notDescent ∧
        calls'.length + shrinks = calls.length + outcome.shrinks + 1 ∧
        outcome.shrinks ≤ shrinks + remaining)
      (fun _ _ => True) := by
  induction remaining generalizing shrinks t calls with
  | zero =>
      unfold shrink
      refine trial_ends (fun trial _ => ?_) (fun trial => ?_) (fun _ _ => trivial)
        fun _ _ _ _ => trivial
      · exact ⟨by simp, by simp; omega, by simp⟩
      · exact .pure ⟨by simp, by simp; omega, by simp⟩
  | succ remaining ih =>
      unfold shrink
      refine trial_ends (fun trial _ => ?_) (fun trial => ?_) (fun _ _ => trivial)
        fun _ _ _ _ => trivial
      · exact ⟨by simp, by simp; omega, by simp⟩
      · apply (ih (shrinks + 1) (t * config.tau) _).imp
        · rintro outcome calls' ⟨hstatus, hlength, hlimit⟩
          simp only [List.length_append, List.length_singleton] at hlength
          exact ⟨hstatus, by omega, by omega⟩
        · exact fun _ _ h => h

theorem search_trials {outcome : SearchOutcome α}
    (h : (f.search x d gradient config).1 = .ok outcome) :
    (f.search x d gradient config).2.length = outcome.evaluations ∧
      outcome.shrinks ≤ config.maxShrinks := by
  have hends : Ends (backtracking f.traced x d gradient config) []
      (fun outcome calls => calls.length = outcome.evaluations ∧
        outcome.shrinks ≤ config.maxShrinks) (fun _ _ => True) := by
    unfold backtracking
    refine .bind (ends_answer (fun slope _ => ?_) fun _ _ => trivial)
    split
    · exact .pure ⟨rfl, Nat.zero_le _⟩
    · refine .bind (ends_value (fun fx _ => ?_) fun _ _ => trivial)
      apply (shrink_trials config.maxShrinks 0 config.initialStep _).imp
      · rintro outcome calls ⟨hstatus, hlength, hlimit⟩
        rw [SearchOutcome.evaluations_of_descending hstatus]
        simp only [List.nil_append, List.length_singleton] at hlength
        exact ⟨by omega, by omega⟩
      · exact fun _ _ h => h
  exact hends.answer (Prod.ext h rfl)

/-! ## The first trial -/

/-- If the first trial is acceptable, the search is over with it. -/
theorem backtracking_of_acceptable {problem : Objective σ α} {trial : Vec α} {ft : α}
    {o o₁ o₂ : σ} (hslope : Vec.dot gradient d = .ok slope) (hdown : ¬ (0.0 : α) < slope)
    (hstart : problem.value x o = (.ok fx, o₁)) (hmove : x.move config.initialStep d = .ok trial)
    (htrial : problem.value trial o₁ = (.ok ft, o₂))
    (haccept : acceptable config.alpha fx slope config.initialStep ft = true) :
    backtracking problem x d gradient config o =
      (.ok ⟨config.initialStep, .accepted, 0, slope⟩, o₂) := by
  rw [backtracking, bind_apply, hslope]
  dsimp only [Eval.pure]
  rw [if_neg hdown, bind_apply, hstart]
  dsimp only
  unfold shrink
  rw [bind_apply, hmove]
  dsimp only [Eval.pure]
  rw [bind_apply, htrial]
  dsimp only
  rw [if_pos haccept]
  rfl

/-! ## What the search looks at -/

/-- The search looks at values only. -/
theorem backtracking_congr {problem other : Objective σ α} (h : problem.value = other.value)
    (x d gradient : Vec α) (config : SearchConfig α) :
    backtracking problem x d gradient config = backtracking other x d gradient config := by
  have hshrink (fx slope : α) (remaining shrinks : Nat) (t : α) :
      shrink problem config x d fx slope remaining shrinks t =
        shrink other config x d fx slope remaining shrinks t := by
    induction remaining generalizing shrinks t with
    | zero =>
        unfold shrink
        rw [h]
    | succ remaining ih =>
        unfold shrink
        simp only [h, ih]
  unfold backtracking
  simp only [h, hshrink]

end LineSearch

end Downhill
