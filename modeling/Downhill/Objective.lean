import Downhill.Linear.Matrix

/-! # Objectives

A function to be minimised, with its derivatives. An evaluation may fault, and it may leave a mark
in a state that belongs to the objective; the state survives a fault.
-/

namespace Downhill

/-- An evaluation over the objective's state. -/
abbrev Eval (σ β : Type) := ExceptT Fault (StateM σ) β

structure Objective (σ α : Type) where
  unknowns : Nat
  value : Vec α → Eval σ α
  gradient : Vec α → Eval σ (Vec α)
  hessian : Vec α → Eval σ (Matrix α)

/-- An evaluation that leaves the state alone. -/
def Eval.pure {σ β : Type} (answer : Except Fault β) : Eval σ β := fun state => (answer, state)

/-- An objective given by its answers alone; its evaluations leave every state alone. -/
def Objective.ofAnswers {σ α : Type} (unknowns : Nat) (value : Vec α → Except Fault α)
    (gradient : Vec α → Except Fault (Vec α)) (hessian : Vec α → Except Fault (Matrix α)) :
    Objective σ α where
  unknowns
  value x := .pure (value x)
  gradient x := .pure (gradient x)
  hessian x := .pure (hessian x)

end Downhill
