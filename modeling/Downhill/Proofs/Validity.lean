import Downhill.Config

/-! # Valid configurations

What a configuration that passes its check promises of its numbers.
-/

namespace Downhill

variable {α : Type} [Scalar α]

namespace SearchConfig

variable {config : SearchConfig α}

theorem validate_iff : config.validate = .ok () ↔
    ((0.0 : α) < config.initialStep ∧ Scalar.isFinite config.initialStep = true) ∧
      inUnitInterval config.alpha = true ∧ inUnitInterval config.tau = true := by
  unfold validate
  split
  · rename_i hrefused
    refine iff_of_false (by simp) ?_
    rintro ⟨⟨hpos, hfinite⟩, -⟩
    simp [hpos, hfinite] at hrefused
  · split
    · simp_all
    · split <;> simp_all

theorem validate_ok (h : config.validate = .ok ()) :
    (0.0 : α) < config.initialStep ∧ inUnitInterval config.alpha = true ∧
      inUnitInterval config.tau = true :=
  ⟨(validate_iff.mp h).1.1, (validate_iff.mp h).2⟩

theorem isFinite_initialStep (h : config.validate = .ok ()) :
    Scalar.isFinite config.initialStep = true := (validate_iff.mp h).1.2

end SearchConfig

theorem SolverConfig.validate_ok {config : SolverConfig α} (h : config.validate = .ok ()) :
    (0.0 : α) < config.tolerance ∧ config.lineSearch.validate = .ok () := by
  unfold validate at h
  split at h
  · contradiction
  · simp_all

namespace ShiftConfig

variable {config : ShiftConfig α}

theorem validate_iff : config.validate = .ok () ↔
    ((1.0 : α) < config.gamma ∧ Scalar.isFinite config.gamma = true) ∧
      (0.0 : α) < config.initialDelta ∧ config.initialDelta ≤ config.maxDelta := by
  unfold validate
  split
  · rename_i hrefused
    refine iff_of_false (by simp) ?_
    rintro ⟨⟨hpos, hfinite⟩, -⟩
    simp [hpos, hfinite] at hrefused
  · split
    · simp_all
    · split <;> simp_all

theorem validate_ok (h : config.validate = .ok ()) :
    (1.0 : α) < config.gamma ∧ (0.0 : α) < config.initialDelta ∧
      config.initialDelta ≤ config.maxDelta :=
  ⟨(validate_iff.mp h).1.1, (validate_iff.mp h).2⟩

theorem isFinite_gamma (h : config.validate = .ok ()) : Scalar.isFinite config.gamma = true :=
  (validate_iff.mp h).1.2

end ShiftConfig

end Downhill
