import Mathlib
import Downhill.Proofs.Number.Quotient
import Downhill.Proofs.Search.FirstShift
import Downhill.Proofs.Validity

/-! # Whether the search for a shift ends

The shifts grow by a factor until the Hessian is positive definite or a cap is exceeded. Over
doubles that takes finitely many shifts exactly if the cap is not infinite and the seed grows by
the factor; a seed that is too small is rounded back to itself, and an infinite cap is never
exceeded.
-/

namespace Downhill

namespace Stabiliser

/-- No search starts below the seed of the configuration. -/
theorem le_seed {α : Type} [Scalar α] [Scalar.Scaling α] {config : ShiftConfig α}
    (h : config.initialDelta ≤ config.maxDelta) (carried : Option α) :
    config.initialDelta ≤ seed config carried := by
  have hself := Scalar.Scaling.le_self (.inl h)
  unfold seed
  split
  · exact Scalar.le_larger_right hself
  · exact hself

/-! ## Searches that go on -/

section Endless

variable {α : Type} [Scalar α] [Kernel α]

omit [Scalar α] in
theorem factorise_of_solver?_none {m : Matrix α} (h : m.solver? = .ok none) :
    Kernel.factorise m = none := by
  rw [Matrix.solver?, if_pos (Matrix.isSquare_of_solver? h), Except.ok.injEq] at h
  exact Option.map_eq_none_iff.mp h

/-- If refused shifts below the cap are followed by such shifts, every allowance runs out. -/
theorem shiftDirection_unsettled {config : ShiftConfig α} {hessian : Matrix α} {iteration : ℕ}
    (refused : α → Prop) (hplain : hessian.solver? = .ok none)
    (hcap : ∀ delta, refused delta → delta ≤ config.maxDelta)
    (hsolver : ∀ delta, refused delta → (hessian.shift delta).solver? = .ok none)
    (hnext : ∀ delta, refused delta → refused (delta * config.gamma))
    (hseed : refused config.initialDelta) (gradient : Vec α) (attempts : ℕ) :
    (shiftDirection config attempts none hessian gradient iteration).outcome =
      .error (.fault .unsettled) := by
  have hrefused (k : ℕ) : refused (shiftAt config none k) := by
    induction k with
    | zero =>
        rw [shiftAt, seed_none]
        exact hseed
    | succ k ih => exact hnext _ ih
  have hended : ShiftsTo config attempts none hessian gradient iteration _ :=
    .unsettled (factorise_of_solver?_none hplain) fun k _ =>
      ⟨hcap _ (hrefused k), factorise_of_solver?_none (hsolver _ (hrefused k))⟩
  rw [hended.eq (Matrix.isSquare_of_solver? hplain)]

end Endless

/-! ## Searches that end -/

section Answers

variable {α : Type} [Scalar α]

/-- The outcome is a direction, or it says that a shift lies above the cap. -/
inductive Answered (config : ShiftConfig α) (iteration : ℕ) :
    Except (Stop α) (Direction α) → Prop
  | found (d : Direction α) : Answered config iteration (.ok d)
  | overflow {delta : α} : ¬ delta ≤ config.maxDelta → Answered config iteration
      (.error (.error (.regularisationOverflow delta config.maxDelta iteration)))

end Answers

/-! ### Doubles -/

section Doubles

open FloatOrder

/-- The doubles that are not smaller. -/
def fromOn (x : Float) : Set Float := { y | x ≤ y }

/-- The bits of a double tell it from all others. -/
def code (x : Float) : Fin UInt64.size := x.toBits.toFin

theorem code_injective : Function.Injective code := fun _ _ h =>
  Float.toBits_inj.mp (UInt64.toFin_inj.mp h)

theorem finite_fromOn (x : Float) : (fromOn x).Finite :=
  have : Finite Float := Finite.of_injective code code_injective
  Set.toFinite _

theorem ncard_fromOn_le (x : Float) : (fromOn x).ncard ≤ doubleAttempts := by
  have : Finite Float := Finite.of_injective code code_injective
  calc (fromOn x).ncard ≤ Nat.card Float := Set.ncard_le_card _
    _ ≤ Nat.card (Fin UInt64.size) := Nat.card_le_card_of_injective code code_injective
    _ = doubleAttempts := by rw [Nat.card_fin, doubleAttempts]

/-- A number that grows leaves itself behind. -/
theorem ncard_fromOn_lt {x y : Float} (hlt : x < y) : (fromOn y).ncard < (fromOn x).ncard := by
  refine Set.ncard_lt_ncard ?_ (finite_fromOn x)
  refine ⟨fun z hz => Scalar.Ordered.le_trans (Scalar.Ordered.le_of_lt hlt) hz, fun hsub => ?_⟩
  have hself : x ∈ fromOn y := hsub (le_self (.inl (Scalar.Ordered.le_of_lt hlt)))
  exact Scalar.Ordered.lt_irrefl y (Scalar.Ordered.lt_of_le_of_lt hself hlt)

variable {config : ShiftConfig Float} {hessian : Matrix Float} {iteration : ℕ}

/-- While the shifts grow, each one that is refused takes at least one double away from those that
may follow. -/
theorem RefusesFirst.ncard_le (hvalid : config.validate = .ok ())
    (hcap : config.maxDelta < Scalar.infinity)
    (hgrows : config.initialDelta < config.initialDelta * config.gamma) {carried : Option Float}
    {k : ℕ} (h : RefusesFirst config carried hessian k) :
    config.initialDelta ≤ shiftAt config carried k ∧
      (fromOn (shiftAt config carried k)).ncard + k ≤ doubleAttempts := by
  obtain ⟨hgamma, hinitial, hmax⟩ := ShiftConfig.validate_ok hvalid
  induction k with
  | zero => exact ⟨le_seed hmax carried, ncard_fromOn_le _⟩
  | succ k ih =>
      obtain ⟨hgrown, hcount⟩ := ih fun j hj => h j (Nat.lt_succ_of_lt hj)
      have hfinite : shiftAt config carried k < Scalar.infinity :=
        Scalar.Ordered.lt_of_le_of_lt (h k (Nat.lt_succ_self k)).1 hcap
      have hnext : shiftAt config carried k < shiftAt config carried (k + 1) :=
        lt_mul_of_le hinitial hgamma hgrows hgrown hfinite
      have hfewer := ncard_fromOn_lt hnext
      exact ⟨Scalar.Ordered.le_trans hgrown (Scalar.Ordered.le_of_lt hnext), by omega⟩

/-- Fewer shifts are refused than there are doubles. -/
theorem RefusesFirst.lt_doubleAttempts (hvalid : config.validate = .ok ())
    (hcap : config.maxDelta < Scalar.infinity)
    (hgrows : config.initialDelta < config.initialDelta * config.gamma) {carried : Option Float}
    {k : ℕ} (h : RefusesFirst config carried hessian k) : k < doubleAttempts := by
  obtain ⟨hgrown, hcount⟩ := h.ncard_le hvalid hcap hgrows
  have hself : shiftAt config carried k ∈ fromOn (shiftAt config carried k) := le_self (.inr hgrown)
  have hpos := (Set.ncard_pos (finite_fromOn _)).mpr ⟨_, hself⟩
  omega

/-- If the seed grows and the cap is not infinite, every search ends, and no longer allowance than
the number of doubles is needed. -/
theorem shiftDirection_answered (hvalid : config.validate = .ok ())
    (hcap : config.maxDelta < Scalar.infinity)
    (hgrows : config.initialDelta < config.initialDelta * config.gamma)
    (hsquare : hessian.isSquare = true) {gradient : Vec Float}
    (hfits : gradient.length = hessian.height) (carried : Option Float) {attempts : ℕ}
    (hattempts : doubleAttempts ≤ attempts) :
    Answered config iteration
      (shiftDirection config attempts carried hessian gradient iteration).outcome := by
  obtain ⟨ended, hended⟩ := exists_shiftsTo config attempts carried hessian gradient iteration
  rw [hended.eq hsquare]
  cases hended with
  | unshifted =>
      rw [solution, if_pos hfits]
      exact .found _
  | shifted =>
      rw [solution, if_pos hfits]
      exact .found _
  | overflow _ _ _ habove => exact .overflow habove
  | unsettled _ hrefused =>
      exact absurd hattempts (hrefused.lt_doubleAttempts hvalid hcap hgrows).not_ge

/-! ### Hessians that are not numbers -/

/-- A Hessian whose only entry is not a number. -/
def formless : Matrix Float := ⟨[[0.0 / 0.0]]⟩

theorem shift_formless (delta : Float) : formless.shift delta = formless := rfl

theorem solver?_formless : formless.solver? = .ok none := by rfl

/-- A cap that is infinite, or a seed that is rounded back to itself, lets a search go on. -/
theorem formless_unsettled (hvalid : config.validate = .ok ())
    (hendless : ¬ (config.maxDelta < Scalar.infinity ∧
      config.initialDelta < config.initialDelta * config.gamma)) (attempts : ℕ) :
    (shiftDirection config attempts none formless [1.0] iteration).outcome =
      .error (.fault .unsettled) := by
  obtain ⟨hgamma, hinitial, hmax⟩ := ShiftConfig.validate_ok hvalid
  have hsolver (delta : Float) : (formless.shift delta).solver? = .ok none := by
    rw [shift_formless, solver?_formless]
  rcases not_and_or.mp hendless with hcap | hstuck
  · -- Every positive shift stays below an infinite cap.
    refine shiftDirection_unsettled (fun delta => (0.0 : Float) < delta) solver?_formless
      (fun delta hdelta => ?_) (fun delta _ => hsolver delta) (fun delta hdelta => ?_) hinitial _ _
    · have hinfinite : Scalar.infinity ≤ config.maxDelta :=
        le_of_not_lt (le_self (.inr hmax)) (le_self (.inr (le_infinity hinitial))) hcap
      exact Scalar.Ordered.le_trans (le_infinity hdelta) hinfinite
    · exact pos_mul hdelta hgamma
  · -- The seed is the only shift there is.
    have hsame : config.initialDelta * config.gamma = config.initialDelta :=
      (eq_of_le_of_not_lt hinitial (le_mul hinitial hgamma) hstuck).symm
    refine shiftDirection_unsettled (fun delta => delta = config.initialDelta)
      solver?_formless ?_ (fun delta _ => hsolver delta) ?_ rfl _ _
    · rintro delta rfl
      exact hmax
    · rintro delta rfl
      exact hsame

/-- A valid configuration ends every search, whatever shift is carried, exactly if its cap is not
infinite and its seed grows by the factor. -/
theorem shift_search_ends_iff (hvalid : config.validate = .ok ()) :
    (∀ (carried : Option Float) (hessian : Matrix Float) (gradient : Vec Float) (iteration : ℕ),
      hessian.isSquare = true → gradient.length = hessian.height →
        ∃ attempts, Answered config iteration
          (shiftDirection config attempts carried hessian gradient iteration).outcome) ↔
      config.maxDelta < Scalar.infinity ∧
        config.initialDelta < config.initialDelta * config.gamma := by
  constructor
  · intro hends
    by_contra hendless
    obtain ⟨attempts, hanswered⟩ := hends none formless [1.0] 0 rfl rfl
    rw [formless_unsettled hvalid hendless] at hanswered
    cases hanswered
  · rintro ⟨hcap, hgrows⟩ carried hessian gradient iteration hsquare hfits
    exact ⟨doubleAttempts,
      shiftDirection_answered hvalid hcap hgrows hsquare hfits carried le_rfl⟩

/-- The configuration that is used unless another is given ends every search. -/
theorem default_shift_search_ends :
    (ShiftConfig.default : ShiftConfig Float).validate = .ok () ∧
      ∀ (carried : Option Float) (hessian : Matrix Float) (gradient : Vec Float) (iteration : ℕ),
        hessian.isSquare = true → gradient.length = hessian.height →
          ∃ attempts, Answered .default iteration
            (shiftDirection .default attempts carried hessian gradient iteration).outcome := by
  have hvalid : (ShiftConfig.default : ShiftConfig Float).validate = .ok () := by decide +kernel
  exact ⟨hvalid, (shift_search_ends_iff hvalid).mpr (by decide +kernel)⟩

/-- A factor of five quarters does not move the smallest double: below a cap as small as the seed,
the seed is tried again and again. -/
theorem smallest_seed_unsettled :
    let config : ShiftConfig Float := ⟨1.25, 5e-324, 5e-324, .resetEachIteration⟩
    config.validate = .ok () ∧
      ∀ attempts, (shiftDirection config attempts none ⟨[[-1.0]]⟩ [1.0] 0).outcome =
        .error (.fault .unsettled) := by
  intro config
  have hplain : (⟨[[-1.0]]⟩ : Matrix Float).solver? = .ok none := by rfl
  have hsum : (-1.0 : Float) + config.initialDelta = -1.0 := by decide +kernel
  have hshift : (⟨[[-1.0]]⟩ : Matrix Float).shift config.initialDelta = ⟨[[-1.0]]⟩ := by
    change (⟨[[-1.0 + config.initialDelta]]⟩ : Matrix Float) = _
    rw [hsum]
  have hmax : config.initialDelta ≤ config.maxDelta := by decide +kernel
  have hsame : config.initialDelta * config.gamma = config.initialDelta := by decide +kernel
  refine ⟨by decide +kernel, fun attempts => ?_⟩
  refine shiftDirection_unsettled (fun delta => delta = config.initialDelta) hplain
    ?_ ?_ ?_ rfl _ _
  · rintro delta rfl
    exact hmax
  · rintro delta rfl
    rw [hshift]
    exact hplain
  · rintro delta rfl
    exact hsame

end Doubles

end Stabiliser

end Downhill
