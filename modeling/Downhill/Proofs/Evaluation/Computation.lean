/-! # Computations that keep a state and may stop

Two ways to reason about them. `Mirrors` compares a computation with one over another state, and
`Ends` says where a computation leads from a given state. Both pass through sequencing.
-/

namespace Downhill

variable {ε σ τ β γ : Type}

theorem bind_apply (m : ExceptT ε (StateM σ) β) (next : β → ExceptT ε (StateM σ) γ) (s : σ) :
    (m >>= next) s = match m s with
      | (.ok b, s') => next b s'
      | (.error e, s') => (.error e, s') := by
  simp only [bind, ExceptT.bind, ExceptT.mk, StateT.bind]
  cases m s with
  | mk outcome s' => cases outcome <;> rfl

/-- A sequence that has an answer had one at the first step. -/
theorem bind_ok {m : ExceptT ε (StateM σ) β} {next : β → ExceptT ε (StateM σ) γ} {s s' : σ} {c : γ}
    (h : (m >>= next) s = (.ok c, s')) :
    ∃ b s₁, m s = (.ok b, s₁) ∧ next b s₁ = (.ok c, s') := by
  rw [bind_apply] at h
  split at h
  · rename_i b s₁ hm
    exact ⟨b, s₁, hm, h⟩
  · cases h

/-- Sequences are equal if they start alike and go on alike from what the start leads to. -/
theorem bind_congr_of_ok {m : ExceptT ε (StateM σ) β} {next next' : β → ExceptT ε (StateM σ) γ}
    {s : σ} (h : ∀ b s₁, m s = (.ok b, s₁) → next b s₁ = next' b s₁) :
    (m >>= next) s = (m >>= next') s := by
  rw [bind_apply, bind_apply]
  cases hm : m s with
  | mk outcome s₁ =>
      cases outcome with
      | error e => rfl
      | ok b => exact h b s₁ hm

/-! ## Comparison over two states -/

/-- `m` does over the images of states what `image` does over the states. -/
def Mirrors (into : τ → σ) (m : ExceptT ε (StateM σ) β) (image : ExceptT ε (StateM τ) β) : Prop :=
  ∀ t, m (into t) = ((image t).1, into (image t).2)

namespace Mirrors

variable {into : τ → σ}

theorem pure (b : β) :
    Mirrors into (Pure.pure b : ExceptT ε (StateM σ) β) (Pure.pure b) := fun _ => rfl

theorem throw (e : ε) :
    Mirrors into (MonadExcept.throw e : ExceptT ε (StateM σ) β) (MonadExcept.throw e) :=
  fun _ => rfl

theorem bind {m : ExceptT ε (StateM σ) β} {image : ExceptT ε (StateM τ) β}
    {next : β → ExceptT ε (StateM σ) γ} {nextImage : β → ExceptT ε (StateM τ) γ}
    (first : Mirrors into m image) (rest : ∀ b, Mirrors into (next b) (nextImage b)) :
    Mirrors into (m >>= next) (image >>= nextImage) := by
  intro t
  rw [bind_apply, bind_apply, first t]
  cases image t with
  | mk outcome t' =>
      cases outcome with
      | error e => rfl
      | ok b => exact rest b t'

theorem ite {c : Prop} [Decidable c] {m n : ExceptT ε (StateM σ) β}
    {image image' : ExceptT ε (StateM τ) β} (yes : Mirrors into m image)
    (no : Mirrors into n image') :
    Mirrors into (if c then m else n) (if c then image else image') := by
  split
  · exact yes
  · exact no

end Mirrors

/-! ## Where a computation leads -/

/-- From the state `s`, the computation ends in an answer for which `answered` holds, or it stops
for a reason for which `stopped` holds. -/
def Ends (m : ExceptT ε (StateM σ) β) (s : σ) (answered : β → σ → Prop)
    (stopped : ε → σ → Prop) : Prop :=
  match m s with
  | (.ok b, s') => answered b s'
  | (.error e, s') => stopped e s'

namespace Ends

variable {m : ExceptT ε (StateM σ) β} {s : σ} {answered : β → σ → Prop}
  {stopped : ε → σ → Prop}

theorem pure {b : β} (h : answered b s) :
    Ends (Pure.pure b : ExceptT ε (StateM σ) β) s answered stopped := h

theorem bind {next : β → ExceptT ε (StateM σ) γ} {finished : γ → σ → Prop}
    (h : Ends m s (fun b s' => Ends (next b) s' finished stopped) stopped) :
    Ends (m >>= next) s finished stopped := by
  unfold Ends at h ⊢
  rw [bind_apply]
  cases hm : m s with
  | mk outcome s' =>
      rw [hm] at h
      cases outcome with
      | error e => exact h
      | ok b => exact h

theorem imp {answered' : β → σ → Prop} {stopped' : ε → σ → Prop}
    (h : Ends m s answered stopped) (hanswered : ∀ b s', answered b s' → answered' b s')
    (hstopped : ∀ e s', stopped e s' → stopped' e s') : Ends m s answered' stopped' := by
  unfold Ends at h ⊢
  split at h
  · exact hanswered _ _ h
  · exact hstopped _ _ h

theorem and {answered' : β → σ → Prop} {stopped' : ε → σ → Prop}
    (h : Ends m s answered stopped) (h' : Ends m s answered' stopped') :
    Ends m s (fun b s' => answered b s' ∧ answered' b s')
      (fun e s' => stopped e s' ∧ stopped' e s') := by
  unfold Ends at h h' ⊢
  split at h
  · rename_i hrun
    rw [hrun] at h'
    exact ⟨h, h'⟩
  · rename_i hrun
    rw [hrun] at h'
    exact ⟨h, h'⟩

theorem answer {b : β} {s' : σ} (h : Ends m s answered stopped) (hrun : m s = (.ok b, s')) :
    answered b s' := by
  simpa only [Ends, hrun] using h

theorem stop {e : ε} {s' : σ} (h : Ends m s answered stopped) (hrun : m s = (.error e, s')) :
    stopped e s' := by
  simpa only [Ends, hrun] using h

theorem state {kept : σ → Prop} (h : Ends m s (fun _ s' => kept s') fun _ s' => kept s') :
    kept (m s).2 := by
  unfold Ends at h
  split at h <;> simp_all

end Ends

/-- Whether the computation has an answer that passes a test, together with the state it leaves. -/
def answersWith (m : ExceptT ε (StateM σ) β) (s : σ) (test : β → σ → Bool) : Bool :=
  match m s with
  | (.ok b, s') => test b s'
  | (.error _, _) => false

theorem exists_of_answersWith (m : ExceptT ε (StateM σ) β) (s : σ) (test : β → σ → Bool)
    (h : answersWith m s test = true) : ∃ b s', m s = (.ok b, s') ∧ test b s' = true := by
  unfold answersWith at h
  split at h
  · exact ⟨_, _, by assumption, h⟩
  · contradiction

/-- Whether the computation stops for a given reason, in a state that passes a test. -/
def stopsWith [DecidableEq ε] (m : ExceptT ε (StateM σ) β) (s : σ) (reason : ε)
    (test : σ → Bool) : Bool :=
  match m s with
  | (.ok _, _) => false
  | (.error e, s') => decide (e = reason) && test s'

theorem exists_of_stopsWith [DecidableEq ε] (m : ExceptT ε (StateM σ) β) (s : σ) (reason : ε)
    (test : σ → Bool) (h : stopsWith m s reason test = true) :
    ∃ s', m s = (.error reason, s') ∧ test s' = true := by
  unfold stopsWith at h
  split at h
  · contradiction
  · rename_i e s' hrun
    simp only [Bool.and_eq_true, decide_eq_true_eq] at h
    exact ⟨s', h.1 ▸ hrun, h.2⟩

end Downhill
