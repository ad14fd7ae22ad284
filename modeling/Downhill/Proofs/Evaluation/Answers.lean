import Downhill.Problem
import Downhill.Recorder

/-! # Answers of an objective

An objective may keep a state. Where that state has no say in its answers, the answers are
functions of the point, and the state is a record of the evaluations that were asked for.
-/

namespace Downhill

/-- What an objective answers at a point, whatever its state. -/
structure Answers (α : Type) where
  unknowns : Nat
  value : Vec α → Except Fault α
  gradient : Vec α → Except Fault (Vec α)
  hessian : Vec α → Except Fault (Matrix α)

/-- An evaluation that was asked for. -/
inductive Call (α : Type) where
  | value (x : Vec α)
  | gradient (x : Vec α)
  | hessian (x : Vec α)
  deriving DecidableEq, Repr

/-- The point whose gradient was asked for. -/
def Call.gradientPoint? {α : Type} : Call α → Option (Vec α)
  | gradient x => some x
  | _ => none

variable {σ α : Type}

namespace Objective

/-- The state has no say in the answers, which are those of `f`. -/
structure Gives (problem : Objective σ α) (f : Answers α) : Prop where
  unknowns : problem.unknowns = f.unknowns
  value : ∀ x o, (problem.value x o).1 = f.value x
  gradient : ∀ x o, (problem.gradient x o).1 = f.gradient x
  hessian : ∀ x o, (problem.hessian x o).1 = f.hessian x

/-- The state after an evaluation. -/
def after (problem : Objective σ α) (o : σ) : Call α → σ
  | .value x => (problem.value x o).2
  | .gradient x => (problem.gradient x o).2
  | .hessian x => (problem.hessian x o).2

/-- The state after a list of evaluations. -/
def replay (problem : Objective σ α) (o : σ) (calls : List (Call α)) : σ :=
  calls.foldl problem.after o

@[simp] theorem replay_nil (problem : Objective σ α) (o : σ) : problem.replay o [] = o := rfl

theorem replay_cons (problem : Objective σ α) (o : σ) (call : Call α) (calls : List (Call α)) :
    problem.replay o (call :: calls) = problem.replay (problem.after o call) calls := rfl

@[simp] theorem replay_append_singleton (problem : Objective σ α) (o : σ)
    (calls : List (Call α)) (call : Call α) :
    problem.replay o (calls ++ [call]) = problem.after (problem.replay o calls) call := by
  simp [replay]

/-- Objectives that are given by their answers ignore their state. -/
theorem ofAnswers_gives (f : Answers α) :
    (ofAnswers f.unknowns f.value f.gradient f.hessian : Objective σ α).Gives f :=
  ⟨rfl, fun _ _ => rfl, fun _ _ => rfl, fun _ _ => rfl⟩

end Objective

namespace Answers

/-- The objective that keeps the list of its evaluations. -/
def traced (f : Answers α) : Objective (List (Call α)) α where
  unknowns := f.unknowns
  value x := fun calls => (f.value x, calls ++ [.value x])
  gradient x := fun calls => (f.gradient x, calls ++ [.gradient x])
  hessian x := fun calls => (f.hessian x, calls ++ [.hessian x])

theorem replay_traced (f : Answers α) (calls later : List (Call α)) :
    f.traced.replay calls later = calls ++ later := by
  induction later generalizing calls with
  | nil => simp
  | cons call later ih =>
      have hcall : f.traced.after calls call = calls ++ [call] := by cases call <;> rfl
      rw [Objective.replay, List.foldl_cons, hcall]
      exact (ih (calls ++ [call])).trans (by simp)

theorem traced_gives (f : Answers α) : f.traced.Gives f :=
  ⟨rfl, fun _ _ => rfl, fun _ _ => rfl, fun _ _ => rfl⟩

/-- The answers of a recorder: for a gradient it needs a value too. -/
def recorded (f : Answers α) : Answers α where
  unknowns := f.unknowns
  value := f.value
  gradient x := do
    let gradient ← f.gradient x
    let _ ← f.value x
    return gradient
  hessian := f.hessian

end Answers

/-- The answers of a problem. -/
def Problem.answers [Scalar α] [Kernel α] (p : Problem α) : Answers α :=
  ⟨p.unknowns, p.value, p.gradient, p.hessian⟩

theorem Problem.objective_gives [Scalar α] [Kernel α] (p : Problem α) :
    (p.objective σ).Gives p.answers := Objective.ofAnswers_gives p.answers

end Downhill
