import Downhill.Proofs.Evaluation.Computation

/-! # Two computations side by side

Computations over different states, whose answers and whose reasons to stop correspond. Unlike for
`Mirrors`, neither state has to be a function of the other.
-/

namespace Downhill

variable {ε δ σ τ β β' γ γ' : Type}

/-- Both computations have an answer, or both stop; answers, reasons and states correspond. -/
inductive Corresponds (states : σ → τ → Prop) (answers : β → γ → Prop) (reasons : ε → δ → Prop) :
    Except ε β × σ → Except δ γ × τ → Prop
  | ok {b : β} {c : γ} {s : σ} {t : τ} : answers b c → states s t →
      Corresponds states answers reasons (.ok b, s) (.ok c, t)
  | error {e : ε} {d : δ} {s : σ} {t : τ} : reasons e d → states s t →
      Corresponds states answers reasons (.error e, s) (.error d, t)

/-- From states that correspond, the computations end in results that correspond. -/
def Couples (states : σ → τ → Prop) (answers : β → γ → Prop) (reasons : ε → δ → Prop)
    (m : ExceptT ε (StateM σ) β) (n : ExceptT δ (StateM τ) γ) : Prop :=
  ∀ s t, states s t → Corresponds states answers reasons (m s) (n t)

namespace Couples

variable {states : σ → τ → Prop} {answers : β → γ → Prop} {answers' : β' → γ' → Prop}
  {reasons : ε → δ → Prop}

theorem pure {b : β} {c : γ} (h : answers b c) :
    Couples states answers reasons (Pure.pure b : ExceptT ε (StateM σ) β)
      (Pure.pure c : ExceptT δ (StateM τ) γ) := fun _ _ hstates => .ok h hstates

theorem throw {e : ε} {d : δ} (h : reasons e d) :
    Couples states answers reasons (MonadExcept.throw e : ExceptT ε (StateM σ) β)
      (MonadExcept.throw d : ExceptT δ (StateM τ) γ) := fun _ _ hstates => .error h hstates

theorem bind {m : ExceptT ε (StateM σ) β} {n : ExceptT δ (StateM τ) γ}
    {next : β → ExceptT ε (StateM σ) β'} {next' : γ → ExceptT δ (StateM τ) γ'}
    (first : Couples states answers reasons m n)
    (rest : ∀ b c, answers b c → Couples states answers' reasons (next b) (next' c)) :
    Couples states answers' reasons (m >>= next) (n >>= next') := by
  intro s t hstates
  have hfirst := first s t hstates
  rw [bind_apply, bind_apply]
  generalize m s = ended at hfirst ⊢
  generalize n t = ended' at hfirst ⊢
  cases hfirst with
  | ok hanswers hstates => exact rest _ _ hanswers _ _ hstates
  | error hreasons hstates => exact .error hreasons hstates

theorem ite {c : Prop} [Decidable c] {m m' : ExceptT ε (StateM σ) β}
    {n n' : ExceptT δ (StateM τ) γ} (yes : Couples states answers reasons m n)
    (no : Couples states answers reasons m' n') :
    Couples states answers reasons (if c then m else m') (if c then n else n') := by
  split
  · exact yes
  · exact no

end Couples

end Downhill
