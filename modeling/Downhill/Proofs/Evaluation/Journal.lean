import Mathlib.Data.List.DropRight
import Downhill.Proofs.Evaluation.Recording
import Downhill.Proofs.Evaluation.Tracking

/-! # Journals

A journal forwards evaluations as a recorder does, but all it does about them is to write them down
with their answers, and it never forgets one. A recorder is a digest of the journal that it could
have been: of the entries since the last reset, it keeps their numbers and the readings of those
gradients that were answered.
-/

namespace Downhill

variable {σ α β : Type}

/-! ## Entries -/

/-- A line of a journal. A gradient is written down with the value that is evaluated after it. -/
inductive Entry (α : Type) where
  | value (x : Vec α) (answer : Except Fault α)
  | gradient (x : Vec α) (answer : Except Fault (Vec α × α))
  | hessian (x : Vec α) (answer : Except Fault (Matrix α))
  | reset

namespace Entry

def isValue : Entry α → Bool
  | value _ _ => true
  | _ => false

def isGradient : Entry α → Bool
  | gradient _ _ => true
  | _ => false

def isHessian : Entry α → Bool
  | hessian _ _ => true
  | _ => false

def isReset : Entry α → Bool
  | reset => true
  | _ => false

/-- The value and the norm of the gradient, if both evaluations returned. -/
def reading? [Scalar α] : Entry α → Option (α × α)
  | gradient _ (.ok (g, v)) => some (v, g.norm)
  | _ => none

end Entry

/-! ## Journals -/

/-- The state of the objective inside, with all entries so far. -/
structure Journal (σ α : Type) where
  inner : σ
  entries : List (Entry α)

namespace Journal

def start (inner : σ) : Journal σ α := ⟨inner, []⟩

def reset (j : Journal σ α) : Journal σ α := { j with entries := j.entries ++ [.reset] }

/-- Evaluate the objective inside and write the answer down. -/
def write (evaluation : Eval σ β) (entry : Except Fault β → Entry α) : Eval (Journal σ α) β :=
  fun j =>
    let (answer, inner) := evaluation j.inner
    (answer, ⟨inner, j.entries ++ [entry answer]⟩)

/-- The objective `problem`, with a journal. -/
def objective (problem : Objective σ α) : Objective (Journal σ α) α where
  unknowns := problem.unknowns
  value x := write (problem.value x) (.value x)
  gradient x := do
    let (gradient, _) ← write (do return (← problem.gradient x, ← problem.value x)) (.gradient x)
    return gradient
  hessian x := write (problem.hessian x) (.hessian x)

/-- Whether the gradient faults, or the value after it, or neither, there is one entry. -/
theorem gradient_apply (problem : Objective σ α) (x : Vec α) (j : Journal σ α) :
    (objective problem).gradient x j =
      match problem.gradient x j.inner with
      | (.error fault, inner) =>
          (.error fault, ⟨inner, j.entries ++ [.gradient x (.error fault)]⟩)
      | (.ok gradient, inner) =>
          match problem.value x inner with
          | (.error fault, inner) =>
              (.error fault, ⟨inner, j.entries ++ [.gradient x (.error fault)]⟩)
          | (.ok value, inner) =>
              (.ok gradient, ⟨inner, j.entries ++ [.gradient x (.ok (gradient, value))]⟩) := by
  simp only [objective, write, bind_apply]
  rcases problem.gradient x j.inner with ⟨_ | gradient, inner⟩
  · rfl
  · dsimp only
    rcases problem.value x inner with ⟨_ | value, inner'⟩ <;> rfl

/-! ## Entries that stay -/

/-- The journal with `earlier` entries in front of its own. -/
def behind (earlier : List (Entry α)) (j : Journal σ α) : Journal σ α :=
  ⟨j.inner, earlier ++ j.entries⟩

theorem reset_behind (earlier : List (Entry α)) (j : Journal σ α) :
    (j.behind earlier).reset = j.reset.behind earlier :=
  congrArg (Journal.mk j.inner) (List.append_assoc earlier j.entries _)

theorem mirrors_write (earlier : List (Entry α)) (evaluation : Eval σ β)
    (entry : Except Fault β → Entry α) :
    Mirrors (behind earlier) (write evaluation entry) (write evaluation entry) := fun j =>
  Prod.ext rfl (congrArg (Journal.mk _) (List.append_assoc earlier j.entries _))

/-- What is written does not depend on what has been written before. -/
theorem objective_behind (problem : Objective σ α) (earlier : List (Entry α)) :
    (objective problem).Mirrored (behind earlier) (objective problem) where
  unknowns := rfl
  value _ := mirrors_write earlier _ _
  gradient _ := (mirrors_write earlier _ _).bind fun _ => .pure _
  hessian _ := mirrors_write earlier _ _

/-! ## Digests -/

/-- The entries since the last reset. -/
def recent (j : Journal σ α) : List (Entry α) := j.entries.rtakeWhile fun entry => !entry.isReset

theorem recent_reset (j : Journal σ α) : j.reset.recent = [] :=
  List.rtakeWhile_concat_neg _ _ _ (by simp [Entry.isReset])

theorem recent_concat (j : Journal σ α) (inner : σ) (entry : Entry α)
    (h : entry.isReset = false) :
    (⟨inner, j.entries ++ [entry]⟩ : Journal σ α).recent = j.recent ++ [entry] :=
  List.rtakeWhile_concat_pos _ _ _ (by simp [h])

variable [Scalar α]

/-- The readings since the last reset. -/
def readings (j : Journal σ α) : List (α × α) := j.recent.filterMap Entry.reading?

/-- The readings as they are numbered in a history. -/
def records (j : Journal σ α) : List (Observation α) := numbered 0 j.readings

/-- The numbers of evaluations since the last reset, with the ends of the history. -/
def statistics (j : Journal σ α) : Statistics α where
  iterations := j.readings.length - 1
  valueEvaluations := j.recent.countP Entry.isValue
  gradientEvaluations := j.recent.countP Entry.isGradient
  hessianEvaluations := j.recent.countP Entry.isHessian
  first := j.records.head?
  last := j.records.getLast?

/-- The recorder that has seen the same. -/
def recorder (j : Journal σ α) : Recorder σ α where
  inner := j.inner
  valueEvaluations := j.recent.countP Entry.isValue
  gradientEvaluations := j.recent.countP Entry.isGradient
  hessianEvaluations := j.recent.countP Entry.isHessian
  observations := j.records.toArray

theorem recorder_reset (j : Journal σ α) : j.reset.recorder = j.recorder.reset := by
  simp only [recorder, records, readings, recent_reset]
  rfl

theorem recorder_statistics (j : Journal σ α) : j.recorder.statistics = j.statistics := by
  simp [Recorder.statistics, recorder, statistics, records, numbered, List.head?_eq_getElem?]

/-- What an entry adds to the digest. -/
theorem recorder_concat (j : Journal σ α) (inner : σ) (entry : Entry α)
    (h : entry.isReset = false) :
    (⟨inner, j.entries ++ [entry]⟩ : Journal σ α).recorder = {
      inner
      valueEvaluations := j.recorder.valueEvaluations + entry.isValue.toNat
      gradientEvaluations := j.recorder.gradientEvaluations + entry.isGradient.toNat
      hessianEvaluations := j.recorder.hessianEvaluations + entry.isHessian.toNat
      observations := j.recorder.observations ++
        (numbered j.recorder.observations.size entry.reading?.toList).toArray } := by
  have hcount (p : Entry α → Bool) : (j.recent ++ [entry]).countP p =
      j.recent.countP p + (p entry).toNat := by
    cases hp : p entry <;> simp [hp]
  have hreadings : (j.recent ++ [entry]).filterMap Entry.reading? =
      j.readings ++ entry.reading?.toList := by
    rw [List.filterMap_append, readings]
    cases hreading : entry.reading? <;> simp [hreading]
  have hsize : (numbered 0 j.readings).length = 0 + j.readings.length := by simp [numbered]
  simp only [recorder, records, readings, recent_concat j inner entry h, hcount, hreadings]
  rw [← readings, numbered_append, ← List.append_toArray, List.size_toArray, hsize]

/-- Every evaluation of a recorder is one of a journal. -/
theorem mirrored (problem : Objective σ α) :
    (Recorder.objective problem).Mirrored recorder (objective problem) where
  unknowns := rfl
  value x j := Prod.ext rfl (recorder_concat j _ (.value x _) rfl).symm
  gradient x j := by
    have hinner : j.recorder.countGradient.inner = j.inner := rfl
    rw [Recorder.gradient_apply, gradient_apply, Recorder.within_apply, hinner]
    rcases problem.gradient x j.inner with ⟨fault | gradient, inner⟩
    · exact Prod.ext rfl (recorder_concat j inner (.gradient x (.error fault)) rfl).symm
    · dsimp only
      rw [Recorder.within_apply]
      rcases problem.value x inner with ⟨fault | value, inner'⟩
      · exact Prod.ext rfl (recorder_concat j inner' (.gradient x (.error fault)) rfl).symm
      · refine Prod.ext rfl (Eq.trans ?_
          (recorder_concat j inner' (.gradient x (.ok (gradient, value))) rfl).symm)
        simp [Recorder.note, Recorder.countGradient, Entry.isValue, Entry.isGradient,
          Entry.isHessian, Entry.reading?, numbered]
  hessian x j := Prod.ext rfl (recorder_concat j _ (.hessian x _) rfl).symm

end Journal

end Downhill
