import Downhill.Proofs.Evaluation.Journal

/-! # Using a recorder

Evaluations, whole solves, looks at the history and resets may follow each other in any order.
Whatever the order is and whichever evaluations fault, a recorder gives the replies that its journal
gives, and it stays the digest of that journal. After a reset, nothing of what was before can be
seen.
-/

namespace Downhill

variable {σ τ α : Type}

/-! ## Operations -/

/-- What a recorder can be asked for. -/
inductive Operation (α : Type) where
  | value (x : Vec α)
  | gradient (x : Vec α)
  | hessian (x : Vec α)
  | unknowns
  | statistics
  | records
  | reset
  /-- The stabiliser may have been used before. -/
  | solve (rule : Rule α) (attempts : Nat) (config : SolverConfig α) (x0 : Vec α)
      (inherited : Option α)

/-- What comes back. -/
inductive Reply (α : Type) where
  | value (answer : Except Fault α)
  | gradient (answer : Except Fault (Vec α))
  | hessian (answer : Except Fault (Matrix α))
  | unknowns (number : Nat)
  | statistics (summary : Statistics α)
  | records (history : List (Observation α))
  | done
  | solved (result : Except (Stop α) (Solution α)) (views : Array (View α)) (log : Array (Event α))

/-- An objective that keeps a history in its states. -/
structure Recording (τ α : Type) where
  objective : Objective τ α
  statistics : τ → Statistics α
  records : τ → List (Observation α)
  reset : τ → τ

/-- Every part of `recording` mirrors that of `image`. -/
structure Recording.Mirrored (into : τ → σ) (recording : Recording σ α) (image : Recording τ α) :
    Prop where
  objective : recording.objective.Mirrored into image.objective
  statistics : ∀ t, recording.statistics (into t) = image.statistics t
  records : ∀ t, recording.records (into t) = image.records t
  reset : ∀ t, recording.reset (into t) = into (image.reset t)

/-- A recorder over `problem`. -/
def Recorder.recording [Scalar α] (problem : Objective σ α) : Recording (Recorder σ α) α where
  objective := objective problem
  statistics := statistics
  records r := r.observations.toList
  reset := reset

/-- A journal over `problem`, which says the same from its entries. -/
def Journal.recording [Scalar α] (problem : Objective σ α) : Recording (Journal σ α) α where
  objective := objective problem
  statistics := statistics
  records := records
  reset := reset

namespace Recording

variable [Scalar α] [Kernel α]

def perform (recording : Recording τ α) (t : τ) : Operation α → Reply α × τ
  | .value x => (recording.objective.value x t).map .value id
  | .gradient x => (recording.objective.gradient x t).map .gradient id
  | .hessian x => (recording.objective.hessian x t).map .hessian id
  | .unknowns => (.unknowns recording.objective.unknowns, t)
  | .statistics => (.statistics (recording.statistics t), t)
  | .records => (.records (recording.records t), t)
  | .reset => (.done, recording.reset t)
  | .solve rule attempts config x0 inherited =>
      let (result, session) :=
        Downhill.solve rule attempts recording.objective config x0 (.start t inherited)
      (.solved result session.views session.log, session.objective)

/-- The replies to a list of operations, and the state after them. -/
def execute (recording : Recording τ α) (t : τ) : List (Operation α) → List (Reply α) × τ
  | [] => ([], t)
  | operation :: rest =>
      let (reply, t') := recording.perform t operation
      let (replies, last) := recording.execute t' rest
      (reply :: replies, last)

theorem execute_append (recording : Recording τ α) (t : τ) (before after : List (Operation α)) :
    recording.execute t (before ++ after) =
      let first := recording.execute t before
      let rest := recording.execute first.2 after
      (first.1 ++ rest.1, rest.2) := by
  induction before generalizing t with
  | nil => rfl
  | cons operation before ih =>
      simp only [List.cons_append, execute, ih]

end Recording

/-! ## Runs over other states -/

section Mirrored

variable [Scalar α] [Kernel α] {into : τ → σ}

theorem solve_mirrored {problem : Objective σ α} {image : Objective τ α}
    (h : problem.Mirrored into image) (rule : Rule α) (attempts : Nat) (config : SolverConfig α)
    (x0 : Vec α) (inherited : Option α) (t : τ) :
    solve rule attempts problem config x0 (.start (into t) inherited) =
      let done := solve rule attempts image config x0 (.start t inherited)
      (done.1, ⟨into done.2.objective, done.2.carried, done.2.views, done.2.log⟩) := by
  have hmirrors :=
    mirrors_solve h (.start (into t) inherited) rule attempts config x0 (.start t inherited)
  simpa [Session.onto, Session.start] using hmirrors

namespace Recording

variable {recording : Recording σ α} {image : Recording τ α} (h : recording.Mirrored into image)

include h

/-- Whatever `recording` is asked for, it does over the images of states what `image` does over the
states. -/
theorem Mirrored.perform (t : τ) (operation : Operation α) :
    recording.perform (into t) operation = (image.perform t operation).map id into := by
  cases operation with
  | value x =>
      simp only [Recording.perform, h.objective.value x t]
      rfl
  | gradient x =>
      simp only [Recording.perform, h.objective.gradient x t]
      rfl
  | hessian x =>
      simp only [Recording.perform, h.objective.hessian x t]
      rfl
  | unknowns =>
      simp only [Recording.perform, h.objective.unknowns]
      rfl
  | statistics =>
      simp only [Recording.perform, h.statistics]
      rfl
  | records =>
      simp only [Recording.perform, h.records]
      rfl
  | reset =>
      simp only [Recording.perform, h.reset]
      rfl
  | solve rule attempts config x0 inherited =>
      simp only [Recording.perform, solve_mirrored h.objective]
      rfl

theorem Mirrored.execute (t : τ) (operations : List (Operation α)) :
    recording.execute (into t) operations = (image.execute t operations).map id into := by
  induction operations generalizing t with
  | nil => rfl
  | cons operation rest ih => simp only [Recording.execute, h.perform, Prod.map, id, ih]

end Recording

end Mirrored

/-! ## Recorders and journals -/

section Digests

variable [Scalar α]

theorem Journal.recording_mirrored (problem : Objective σ α) :
    (Recorder.recording problem).Mirrored recorder (recording problem) where
  objective := mirrored problem
  statistics := recorder_statistics
  records _ := rfl
  reset j := j.recorder_reset.symm

theorem Journal.recording_behind (problem : Objective σ α) (earlier : List (Entry α)) :
    (recording problem).Mirrored (behind earlier) {
      objective := objective problem
      statistics := fun j => (behind earlier j).statistics
      records := fun j => (behind earlier j).records
      reset := reset } where
  objective := objective_behind problem earlier
  statistics _ := rfl
  records _ := rfl
  reset j := j.reset_behind earlier

variable [Kernel α] (problem : Objective σ α)

/-- A journal never forgets an entry. -/
theorem Journal.entries_prefix (j : Journal σ α) (operations : List (Operation α)) :
    j.entries <+: ((recording problem).execute j operations).2.entries := by
  have hbehind : behind j.entries (start j.inner) = j :=
    congrArg (Journal.mk j.inner) (List.append_nil j.entries)
  have hexecute := (recording_behind problem j.entries).execute (start j.inner) operations
  rw [hbehind] at hexecute
  rw [hexecute]
  exact List.prefix_append _ _

/-- The recorder holds what the journal says of the time since its last reset: a count for every
kind of evaluation, those that faulted included, and one numbered observation for each gradient that
was answered together with its value. -/
structure Recorder.Digests (r : Recorder σ α) (j : Journal σ α) : Prop where
  inner : r.inner = j.inner
  values : r.valueEvaluations = j.recent.countP Entry.isValue
  gradients : r.gradientEvaluations = j.recent.countP Entry.isGradient
  hessians : r.hessianEvaluations = j.recent.countP Entry.isHessian
  observations : r.observations.toList = numbered 0 (j.recent.filterMap Entry.reading?)
  statistics : r.statistics = j.statistics

/-- Through all operations, a recorder replies as its journal does and stays its digest. The journal
never forgets; the recorder does with a reset, after which it goes on as a new one would over the
objective inside. -/
theorem execute_digests (o : σ) :
    (∀ operations : List (Operation α),
      let recorded := (Recorder.recording problem).execute (.start o) operations
      let logged := (Journal.recording problem).execute (.start o) operations
      recorded.1 = logged.1 ∧ recorded.2.Digests logged.2) ∧
    ∀ before after : List (Operation α),
      let first := (Recorder.recording problem).execute (.start o) before
      let fresh := (Recorder.recording problem).execute (.start first.2.inner) after
      (Recorder.recording problem).execute (.start o) (before ++ .reset :: after) =
          (first.1 ++ .done :: fresh.1, fresh.2) ∧
        ((Journal.recording problem).execute (.start o) before).2.entries <+:
          ((Journal.recording problem).execute (.start o) (before ++ after)).2.entries := by
  constructor
  · intro operations recorded logged
    have hrecorded : recorded = logged.map id Journal.recorder :=
      (Journal.recording_mirrored problem).execute (.start o) operations
    rw [hrecorded]
    exact ⟨rfl, rfl, rfl, rfl, rfl, rfl, logged.2.recorder_statistics⟩
  · intro before after
    rw [Recording.execute_append, Recording.execute_append]
    exact ⟨rfl, Journal.entries_prefix problem _ after⟩

end Digests

end Downhill
