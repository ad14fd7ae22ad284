import Downhill.Proofs.Evaluation.Answers
import Downhill.Proofs.Evaluation.Computation

/-! # What a recorder keeps

A recorder answers as the objective inside does. It counts what it is asked for, and its history
grows by one observation with each gradient.
-/

namespace Downhill

variable {σ α β : Type}

/-! ## Evaluations of a recorder -/

namespace Recorder

theorem within_apply (evaluation : Eval σ β) (r : Recorder σ α) :
    within evaluation r =
      ((evaluation r.inner).1, { r with inner := (evaluation r.inner).2 }) := rfl

variable [Scalar α] (problem : Objective σ α) (x : Vec α) (r : Recorder σ α)

/-- The value is evaluated after the gradient, and noted with the norm. -/
theorem gradient_apply : (objective problem).gradient x r =
    match within (problem.gradient x) r.countGradient with
    | (.error fault, r') => (.error fault, r')
    | (.ok gradient, r') =>
        match within (problem.value x) r' with
        | (.error fault, r'') => (.error fault, r'')
        | (.ok value, r'') => (.ok gradient, note value gradient.norm r'') := by
  have hcount : (modify countGradient : Eval (Recorder σ α) PUnit) r =
      (.ok ⟨⟩, r.countGradient) := rfl
  simp only [objective, bind_apply, hcount]
  rcases within (problem.gradient x) r.countGradient with ⟨_ | gradient, r'⟩
  · rfl
  · dsimp only
    rcases within (problem.value x) r' with ⟨_ | value, r''⟩ <;> rfl

end Recorder

variable [Scalar α] {problem : Objective σ α} {f : Answers α}

theorem recorder_gives (h : problem.Gives f) : (Recorder.objective problem).Gives f.recorded where
  unknowns := h.unknowns
  value x r := h.value x r.inner
  hessian x r := h.hessian x r.inner
  gradient x r := by
    rw [Recorder.gradient_apply, Recorder.within_apply, h.gradient]
    simp only [Answers.recorded]
    cases f.gradient x with
    | error fault => rfl
    | ok gradient =>
        simp only [Recorder.within_apply, h.value]
        cases f.value x <;> rfl

/-! ## Counters -/

namespace Call

variable {α : Type}

def isValue : Call α → Bool
  | value _ => true
  | _ => false

def isGradient : Call α → Bool
  | gradient _ => true
  | _ => false

def isHessian : Call α → Bool
  | hessian _ => true
  | _ => false

end Call

/-- `after` has counted the evaluations `calls` on top of what `r` had counted. -/
structure Recorder.Counts {σ α : Type} (r : Recorder σ α) (calls : List (Call α))
    (after : Recorder σ α) : Prop where
  values : after.valueEvaluations = r.valueEvaluations + calls.countP Call.isValue
  gradients : after.gradientEvaluations = r.gradientEvaluations + calls.countP Call.isGradient
  hessians : after.hessianEvaluations = r.hessianEvaluations + calls.countP Call.isHessian

theorem counts_after (r : Recorder σ α) (call : Call α) :
    r.Counts [call] ((Recorder.objective problem).after r call) := by
  cases call with
  | value x => exact ⟨rfl, rfl, rfl⟩
  | hessian x => exact ⟨rfl, rfl, rfl⟩
  | gradient x =>
      -- The value that the observation needs is not counted, and a fault comes after the count.
      simp only [Objective.after, Recorder.gradient_apply, Recorder.within_apply]
      rcases (problem.gradient x r.countGradient.inner).1 with fault | gradient
      · exact ⟨rfl, rfl, rfl⟩
      · dsimp only
        generalize (problem.gradient x r.countGradient.inner).2 = o
        rcases (problem.value x o).1 with fault | value <;> exact ⟨rfl, rfl, rfl⟩

theorem counts_replay (r : Recorder σ α) (calls : List (Call α)) :
    r.Counts calls ((Recorder.objective problem).replay r calls) := by
  induction calls generalizing r with
  | nil => exact ⟨rfl, rfl, rfl⟩
  | cons call calls ih =>
      have hcall : r.Counts [call] ((Recorder.objective problem).after r call) :=
        counts_after r call
      have hcalls := ih ((Recorder.objective problem).after r call)
      rw [Objective.replay_cons]
      refine ⟨?_, ?_, ?_⟩
      · rw [hcalls.values, hcall.values]
        simp [List.countP_cons]
        omega
      · rw [hcalls.gradients, hcall.gradients]
        simp [List.countP_cons]
        omega
      · rw [hcalls.hessians, hcall.hessians]
        simp [List.countP_cons]
        omega

/-! ## The history -/

/-- What an observation says of a point. -/
def Observation.reading {α : Type} (seen : Observation α) : α × α := (seen.value, seen.gradientNorm)

/-- What the gradient at `x` leaves in the history. -/
def Answers.reading (f : Answers α) (x : Vec α) : Option (α × α) :=
  match f.gradient x, f.value x with
  | .ok gradient, .ok value => some (value, gradient.norm)
  | _, _ => none

/-- The readings in the history of a recorder. -/
def Recorder.history (r : Recorder σ α) : List (α × α) :=
  r.observations.toList.map Observation.reading

/-- Readings as observations with numbers from `k` on. -/
def numbered {α : Type} (k : Nat) (readings : List (α × α)) : List (Observation α) :=
  readings.mapIdx fun j reading => ⟨k + j, reading.1, reading.2⟩

omit [Scalar α] in
theorem numbered_append (k : Nat) (readings later : List (α × α)) :
    numbered k (readings ++ later) =
      numbered k readings ++ numbered (k + readings.length) later := by
  have hnumber : ∀ i, k + (i + readings.length) = k + readings.length + i := by omega
  simp only [numbered, List.mapIdx_append, hnumber]

omit [Scalar α] in
theorem map_reading_numbered (k : Nat) (readings : List (α × α)) :
    (numbered k readings).map Observation.reading = readings := by
  apply List.ext_getElem <;> simp [numbered, Observation.reading]

theorem observations_after (h : problem.Gives f) (r : Recorder σ α) (call : Call α) :
    ((Recorder.objective problem).after r call).observations.toList =
      r.observations.toList ++
        numbered r.observations.size (call.gradientPoint?.bind f.reading).toList := by
  cases call with
  | value x => exact (List.append_nil _).symm
  | hessian x => exact (List.append_nil _).symm
  | gradient x =>
      simp only [Objective.after, Recorder.gradient_apply, Recorder.within_apply, h.gradient,
        Call.gradientPoint?, Option.bind_some, Answers.reading]
      cases f.gradient x with
      | error fault => exact (List.append_nil _).symm
      | ok gradient =>
          simp only [h.value]
          cases f.value x with
          | error fault => exact (List.append_nil _).symm
          | ok value => simp [Recorder.countGradient, Recorder.note, numbered]

/-- Whatever is asked for, the history goes on with the readings that the gradients leave. -/
theorem observations_replay (h : problem.Gives f) (r : Recorder σ α) (calls : List (Call α)) :
    ((Recorder.objective problem).replay r calls).observations.toList =
      r.observations.toList ++ numbered r.observations.size
        ((calls.filterMap Call.gradientPoint?).filterMap f.reading) := by
  induction calls generalizing r with
  | nil => simp [numbered]
  | cons call calls ih =>
      have hcall := observations_after h r call
      have hsize : ((Recorder.objective problem).after r call).observations.size =
          r.observations.size + (call.gradientPoint?.bind f.reading).toList.length := by
        rw [← Array.length_toList, hcall]
        simp [numbered]
      have hreadings : ((call :: calls).filterMap Call.gradientPoint?).filterMap f.reading =
          (call.gradientPoint?.bind f.reading).toList ++
            (calls.filterMap Call.gradientPoint?).filterMap f.reading := by
        cases call with
        | value x => rfl
        | hessian x => rfl
        | gradient x =>
            simp only [Call.gradientPoint?, Option.bind_some, List.filterMap_cons]
            cases f.reading x <;> rfl
      rw [Objective.replay_cons, ih, hcall, hsize, hreadings, numbered_append, List.append_assoc]

theorem history_replay (h : problem.Gives f) (r : Recorder σ α) (calls : List (Call α)) :
    ((Recorder.objective problem).replay r calls).history =
      r.history ++ (calls.filterMap Call.gradientPoint?).filterMap f.reading := by
  rw [Recorder.history, observations_replay h, List.map_append, map_reading_numbered]
  rfl

omit [Scalar α] in
theorem history_values (r : Recorder σ α) :
    r.history.map Prod.fst = r.observations.toList.map Observation.value := by
  simp [Recorder.history, Observation.reading]

omit [Scalar α] in
theorem recorded_gradient_ok {x gradient : Vec α} (h : f.recorded.gradient x = .ok gradient) :
    f.gradient x = .ok gradient := by
  revert h
  simp only [Answers.recorded]
  cases f.gradient x with
  | error fault => exact id
  | ok g =>
      cases f.value x with
      | error fault => nofun
      | ok value => exact id

theorem reading_of_recorded {x gradient : Vec α} (h : f.recorded.gradient x = .ok gradient) :
    ∃ value, f.value x = .ok value ∧ f.gradient x = .ok gradient ∧
      f.reading x = some (value, gradient.norm) := by
  have hgradient := recorded_gradient_ok h
  cases hvalue : f.value x with
  | error fault => simp [Answers.recorded, hgradient, hvalue, bind, Except.bind] at h
  | ok value => exact ⟨value, rfl, hgradient, by simp only [Answers.reading, hgradient, hvalue]⟩

/-- Where a recorder answers, no reading is missing. -/
theorem map_some_readings {points : List (Vec α)}
    (h : ∀ x ∈ points, ∃ gradient, f.recorded.gradient x = .ok gradient) :
    (points.filterMap f.reading).map some = points.map f.reading := by
  induction points with
  | nil => rfl
  | cons x points ih =>
      obtain ⟨gradient, hx⟩ := h x (by simp)
      obtain ⟨value, -, -, hreading⟩ := reading_of_recorded hx
      rw [List.filterMap_cons_some hreading, List.map_cons, List.map_cons, hreading,
        ih fun y hy => h y (by simp [hy])]

/-- After the evaluations `calls`, whose gradients have answers, a recorder that started empty holds
an observation for each of them. -/
theorem observations_of_answered (h : problem.Gives f) (r : Recorder σ α) {calls : List (Call α)}
    {points : List (Vec α)} (hpoints : calls.filterMap Call.gradientPoint? = points)
    (hanswers : ∀ x ∈ points, ∃ gradient, f.recorded.gradient x = .ok gradient) :
    ((Recorder.objective problem).replay r.reset calls).observations.size = points.length ∧
      ∀ j x, points[j]? = some x → ∃ value gradient, f.value x = .ok value ∧
        f.gradient x = .ok gradient ∧
        ((Recorder.objective problem).replay r.reset calls).observations[j]? =
          some (⟨j, value, gradient.norm⟩ : Observation α) := by
  have hreadings := map_some_readings hanswers
  have hobservations := observations_replay h r.reset calls
  rw [hpoints] at hobservations
  generalize ((Recorder.objective problem).replay r.reset calls).observations = seen
    at hobservations ⊢
  replace hobservations : seen.toList = numbered 0 (points.filterMap f.reading) := hobservations
  constructor
  · rw [← Array.length_toList, hobservations]
    simpa [numbered] using congrArg List.length hreadings
  · intro j x hx
    obtain ⟨gradient, hgradient⟩ := hanswers x (List.mem_of_getElem? hx)
    obtain ⟨value, hvalue, hgradient, hreading⟩ := reading_of_recorded hgradient
    refine ⟨value, gradient, hvalue, hgradient, ?_⟩
    have hj : (points.filterMap f.reading)[j]? = some (value, gradient.norm) := by
      have hat := congrArg (·[j]?) hreadings
      simpa [hx, hreading] using hat
    rw [← Array.getElem?_toList, hobservations, numbered, List.getElem?_mapIdx, hj]
    simp

/-- The values among the readings are those of the points. -/
theorem readings_values {points : List (Vec α)} {values : List α}
    (hgradient : ∀ x ∈ points, ∃ gradient, f.recorded.gradient x = .ok gradient)
    (hvalues : points.map f.value = values.map .ok) :
    (points.filterMap f.reading).map Prod.fst = values := by
  induction points generalizing values with
  | nil => simpa [eq_comm] using hvalues
  | cons x points ih =>
      obtain ⟨gradient, hx⟩ := hgradient x (by simp)
      obtain ⟨value, hvalue, -, hreading⟩ := reading_of_recorded hx
      cases values with
      | nil => simp at hvalues
      | cons first values =>
          simp only [List.map_cons, List.cons.injEq, hvalue, Except.ok.injEq] at hvalues
          rw [List.filterMap_cons_some hreading, List.map_cons, hvalues.1,
            ih (fun y hy => hgradient y (by simp [hy])) hvalues.2]

end Downhill
