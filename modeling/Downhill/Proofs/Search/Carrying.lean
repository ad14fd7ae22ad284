import Mathlib
import Downhill.Proofs.Number.Quotient
import Downhill.Proofs.Search.FirstShift
import Downhill.Proofs.Search.Shift

/-! # Carried shifts

A stabiliser that is called again and again carries a shift from one call to the next. Whatever it
is called with, the shift that it carries lies between the seed and the cap, so the first shift of
every call may be tried; and it is the shift of the last call that returned a direction.
-/

namespace Downhill

/-- The call came to an end, with a direction or an error. A call that faults does not return; over
a gradient of another size than the Hessian it does so after it has taken its shift over. -/
def Stabilised.Returns {α : Type} (ended : Stabilised α) : Prop :=
  ∀ fault, ended.outcome ≠ .error (.fault fault)

namespace Stabiliser

variable {α : Type} [Scalar α]

/-! ## Calls -/

/-- What a stabiliser is called with. -/
structure Request (α : Type) where
  hessian : Matrix α
  gradient : Vec α
  iteration : ℕ

/-- What the calls of one stabiliser have left behind. -/
structure History (α : Type) where
  carried : Option α
  /-- What they ended with, the last one first. -/
  results : List (Stabilised α)

namespace History

/-- The stabiliser has not been called yet. -/
def fresh : History α := ⟨none, []⟩

/-- No call has faulted. -/
def Returned (past : History α) : Prop := ∀ ended ∈ past.results, ended.Returns

/-- The correction that was reported with the last direction. -/
def reported? (past : History α) : Option α :=
  past.results.findSome? fun ended => ended.outcome.toOption.map Direction.regularisation

/-- The history with one more call, and how that ended. -/
def push (past : History α) (ended : Stabilised α) : History α :=
  ⟨ended.carried, ended :: past.results⟩

end History

variable [Kernel α] {config : ShiftConfig α} {attempts iteration : ℕ} {carried : Option α}
  {hessian : Matrix α} {gradient : Vec α}

/-- How a call ends that comes after others. -/
def History.answer (past : History α) (config : ShiftConfig α) (attempts : ℕ)
    (request : Request α) : Stabilised α :=
  shiftDirection config attempts past.carried request.hessian request.gradient request.iteration

/-- The history of calls of a fresh stabiliser, one after the other. -/
def history (config : ShiftConfig α) (attempts : ℕ) (requests : List (Request α)) : History α :=
  requests.foldl (fun past request => past.push (past.answer config attempts request)) .fresh

/-- What every call keeps holds of all histories. -/
theorem history_induction {kept : History α → Prop} (hfresh : kept .fresh)
    (hcall : ∀ past request, kept past → kept (past.push (past.answer config attempts request)))
    (requests : List (Request α)) : kept (history config attempts requests) := by
  induction requests using List.reverseRecOn with
  | nil => exact hfresh
  | append_singleton requests request ih =>
      rw [history, List.foldl_append]
      exact hcall _ request ih

/-! ## Shifts of a valid configuration -/

section Shifts

/-- What is carried lies between the seed and the cap. -/
def Within (config : ShiftConfig α) (carried : Option α) : Prop :=
  ∀ shift, carried = some shift → config.initialDelta ≤ shift ∧ shift ≤ config.maxDelta

omit [Kernel α]

theorem within_none : Within config none := by
  intro shift hshift
  contradiction

variable [Scalar.Scaling α] (hvalid : config.validate = .ok ())

include hvalid

theorem div_gamma_le {shift : α} (hshift : config.initialDelta ≤ shift) :
    shift / config.gamma ≤ shift := by
  obtain ⟨hgamma, hinitial, -⟩ := ShiftConfig.validate_ok hvalid
  exact Scalar.Scaling.div_le (Scalar.Scaling.lt_of_lt_of_le hinitial hshift) hgamma
    (ShiftConfig.isFinite_gamma hvalid)

/-- The first shift of a call may be tried. -/
theorem seed_le_maxDelta (hcarried : Within config carried) :
    seed config carried ≤ config.maxDelta := by
  have hmax := (ShiftConfig.validate_ok hvalid).2.2
  unfold seed
  split
  · rename_i last hlast
    obtain ⟨hlow, hhigh⟩ := hcarried last rfl
    exact Scalar.larger_le (Scalar.Ordered.le_trans (div_gamma_le hvalid hlow) hhigh) hmax
  · exact hmax

/-- With a schedule that carries shifts forward, the first one is at most a factor smaller. -/
theorem div_gamma_le_seed (hschedule : config.schedule = .carryForward) {shift : α}
    (hshift : config.initialDelta ≤ shift) :
    shift / config.gamma ≤ seed config (some shift) := by
  simp only [seed, hschedule]
  exact Scalar.le_larger_left (Scalar.Scaling.le_self (.inl (div_gamma_le hvalid hshift)))

/-- The shifts of a call are positive, and none of them lies below the first one. -/
theorem seed_le_shiftAt (carried : Option α) (k : ℕ) :
    (0.0 : α) < shiftAt config carried k ∧
      seed config carried ≤ shiftAt config carried k := by
  obtain ⟨hgamma, hinitial, hmax⟩ := ShiftConfig.validate_ok hvalid
  have hseed := le_seed hmax carried
  induction k with
  | zero =>
      exact ⟨Scalar.Scaling.lt_of_lt_of_le hinitial hseed, Scalar.Scaling.le_self (.inr hseed)⟩
  | succ k ih =>
      have hgrown := Scalar.Scaling.le_mul ih.1 hgamma
      exact ⟨Scalar.Growing.pos_mul ih.1 hgamma, Scalar.Ordered.le_trans ih.2 hgrown⟩

theorem initialDelta_le_shiftAt (carried : Option α) (k : ℕ) :
    config.initialDelta ≤ shiftAt config carried k :=
  Scalar.Ordered.le_trans (le_seed (ShiftConfig.validate_ok hvalid).2.2 carried)
    (seed_le_shiftAt hvalid carried k).2

end Shifts

/-! ## One call -/

/-- What a call carries on, depending on how it ends. -/
inductive Carries (config : ShiftConfig α) (carried : Option α) (ended : Stabilised α) : Prop
  /-- A direction without a correction. -/
  | unshifted {d : Direction α} : ended.outcome = .ok d → d.regularisation = 0.0 →
      ended.carried = none → Carries config carried ended
  /-- A direction with a shift below the cap. -/
  | shifted {d : Direction α} {k : ℕ} : ended.outcome = .ok d →
      d.regularisation = shiftAt config carried k → shiftAt config carried k ≤ config.maxDelta →
      ended.carried = some (shiftAt config carried k) → Carries config carried ended
  /-- An error after which nothing has changed. -/
  | refused {error : SolverError α} : ended.outcome = .error (.error error) →
      ended.carried = carried → Carries config carried ended
  /-- A fault, before or after a factor was found. -/
  | faulted {fault : Fault} : ended.outcome = .error (.fault fault) →
      (ended.carried = carried ∨ ended.carried = none ∨
        ∃ k, shiftAt config carried k ≤ config.maxDelta ∧
          ended.carried = some (shiftAt config carried k)) →
      Carries config carried ended

theorem shiftDirection_carries (config : ShiftConfig α) (attempts : ℕ) (carried : Option α)
    (hessian : Matrix α) (gradient : Vec α) (iteration : ℕ) :
    Carries config carried
      (shiftDirection config attempts carried hessian gradient iteration) := by
  by_cases hsquare : hessian.isSquare = true
  · obtain ⟨ended, hended⟩ :=
      exists_shiftsTo config attempts carried hessian gradient iteration
    rw [hended.eq hsquare]
    cases hended with
    | unshifted hfactor =>
        by_cases hfits : gradient.length = hessian.height
        · exact .unshifted (if_pos hfits) rfl rfl
        · exact .faulted (if_neg hfits) (.inr (.inl rfl))
    | shifted hnone hk hrefused hbelow hfactor =>
        by_cases hfits : gradient.length = hessian.height
        · exact .shifted (if_pos hfits) rfl hbelow rfl
        · exact .faulted (if_neg hfits) (.inr (.inr ⟨_, hbelow, rfl⟩))
    | overflow => exact .refused rfl rfl
    | unsettled => exact .faulted rfl (.inl rfl)
  · rw [shiftDirection_of_not_square hsquare]
    exact .faulted rfl (.inl rfl)

/-! ## Histories -/

section Histories

variable [Scalar.Scaling α] (hvalid : config.validate = .ok ())

/-- What is carried stands for the last direction: nothing if there is none or its Hessian was not
corrected, else the shift that was reported with it. -/
inductive History.Agrees (past : History α) : Prop
  | untouched : past.reported? = none → past.carried = none → Agrees past
  | cleared : past.reported? = some 0.0 → past.carried = none → Agrees past
  | kept {shift : α} : past.reported? = some shift → (0.0 : α) < shift →
      past.carried = some shift → Agrees past

omit [Kernel α] in
theorem History.Agrees.carried_iff {past : History α} (h : past.Agrees) (shift : α) :
    past.carried = some shift ↔ past.reported? = some shift ∧ (0.0 : α) < shift := by
  cases h with
  | untouched hreported hcarried => simp [hreported, hcarried]
  | cleared hreported hcarried =>
      rw [hreported, hcarried]
      refine ⟨fun hsome => by contradiction, ?_⟩
      rintro ⟨hzero, hpos⟩
      cases hzero
      exact absurd hpos (Scalar.Ordered.lt_irrefl _)
  | kept hreported hpos hcarried =>
      rw [hreported, hcarried]
      exact ⟨fun hshift => ⟨hshift, Option.some.inj hshift ▸ hpos⟩, And.left⟩

omit [Kernel α] in
theorem History.Agrees.none_iff {past : History α} (h : past.Agrees) :
    past.carried = none ↔ past.reported? = none ∨ past.reported? = some 0.0 := by
  cases h with
  | untouched hreported hcarried => simp [hreported, hcarried]
  | cleared hreported hcarried => simp [hreported, hcarried]
  | kept hreported hpos hcarried =>
      rw [hreported, hcarried]
      refine ⟨fun hsome => by contradiction, ?_⟩
      rintro (hnone | hzero)
      · contradiction
      · cases hzero
        exact absurd hpos (Scalar.Ordered.lt_irrefl _)

/-- What every call of a stabiliser keeps. -/
structure History.Kept (config : ShiftConfig α) (past : History α) : Prop where
  bounded : Within config past.carried
  /-- A shift that was reported by the last call is carried. -/
  last : ∀ ended ∈ past.results.head?, ∀ d, ended.outcome = .ok d → (0.0 : α) < d.regularisation →
    past.carried = some d.regularisation
  agrees : past.Returned → past.Agrees

omit [Kernel α] in
include hvalid in
theorem Carries.bounded {carried : Option α} {ended : Stabilised α}
    (h : Carries config carried ended) (hcarried : Within config carried) :
    Within config ended.carried := by
  have hshift {k : ℕ} (hbelow : shiftAt config carried k ≤ config.maxDelta) :
      Within config (some (shiftAt config carried k)) := by
    rintro shift ⟨⟩
    exact ⟨initialDelta_le_shiftAt hvalid carried k, hbelow⟩
  cases h with
  | unshifted houtcome hzero hnone => rw [hnone]; exact within_none
  | shifted houtcome hreported hbelow hsome => rw [hsome]; exact hshift hbelow
  | refused houtcome hsame => rwa [hsame]
  | faulted houtcome hleft =>
      rcases hleft with hsame | hnone | ⟨k, hbelow, hsome⟩
      · rwa [hsame]
      · rw [hnone]; exact within_none
      · rw [hsome]; exact hshift hbelow

omit [Scalar α] [Kernel α] [Scalar.Scaling α] in
theorem History.reported?_push (past : History α) (ended : Stabilised α) :
    (past.push ended).reported? =
      (ended.outcome.toOption.map Direction.regularisation).or past.reported? := by
  simp only [reported?, push, List.findSome?_cons]
  cases ended.outcome.toOption.map Direction.regularisation <;> rfl

omit [Kernel α] in
include hvalid in
theorem Carries.agrees {past : History α} {ended : Stabilised α}
    (h : Carries config past.carried ended) (hreturns : ended.Returns) (hpast : past.Agrees) :
    (past.push ended).Agrees := by
  have hreported := past.reported?_push ended
  cases h with
  | unshifted houtcome hzero hnone =>
      rw [houtcome] at hreported
      exact .cleared (hreported.trans (congrArg some hzero)) hnone
  | @shifted d k houtcome hshift hbelow hsome =>
      rw [houtcome] at hreported
      exact .kept (hreported.trans (congrArg some hshift))
        (seed_le_shiftAt hvalid past.carried k).1 hsome
  | refused houtcome hsame =>
      rw [houtcome] at hreported
      cases hpast with
      | untouched hnone hcarried => exact .untouched (hreported.trans hnone) (hsame.trans hcarried)
      | cleared hzero hcarried => exact .cleared (hreported.trans hzero) (hsame.trans hcarried)
      | kept hshift hpos hcarried =>
          exact .kept (hreported.trans hshift) hpos (hsame.trans hcarried)
  | faulted houtcome => exact absurd houtcome (hreturns _)

omit [Kernel α] in
/-- A correction that is reported is the shift that is carried, one of those of the call. -/
theorem Carries.of_pos {carried : Option α} {ended : Stabilised α} {d : Direction α}
    (h : Carries config carried ended) (hd : ended.outcome = .ok d)
    (hpos : (0.0 : α) < d.regularisation) :
    ended.carried = some d.regularisation ∧ ∃ k, d.regularisation = shiftAt config carried k := by
  cases h with
  | unshifted houtcome hzero hnone =>
      cases houtcome.symm.trans hd
      rw [hzero] at hpos
      exact absurd hpos (Scalar.Ordered.lt_irrefl _)
  | @shifted d' k houtcome hreported hbelow hsome =>
      cases houtcome.symm.trans hd
      exact ⟨hsome.trans (congrArg some hreported.symm), k, hreported⟩
  | refused houtcome => cases houtcome.symm.trans hd
  | faulted houtcome => cases houtcome.symm.trans hd

include hvalid in
theorem history_kept (attempts : ℕ) (requests : List (Request α)) :
    (history config attempts requests).Kept config := by
  refine history_induction ⟨within_none, by simp [History.fresh], fun _ => .untouched rfl rfl⟩ ?_
    requests
  intro past request hpast
  have hcarries : Carries config past.carried (past.answer config attempts request) :=
    shiftDirection_carries ..
  refine ⟨hcarries.bounded hvalid hpast.bounded, ?_, fun hreturned => ?_⟩
  · rintro ended ⟨⟩ d hd hpos
    exact (hcarries.of_pos hd hpos).1
  · have hearlier : past.Returned := fun ended hended =>
      hreturned ended (List.mem_cons_of_mem _ hended)
    exact hcarries.agrees hvalid (hreturned _ List.mem_cons_self) (hpast.agrees hearlier)

/-- What holds of one more call of a stabiliser, with all that it has been called with before. -/
structure CarriesOn (config : ShiftConfig α) (attempts : ℕ) (past : History α)
    (request : Request α) (ended : Stabilised α) : Prop where
  bounded : Within config ended.carried
  carried_iff : past.Returned → ended.Returns → ∀ shift, ended.carried = some shift ↔
    (past.push ended).reported? = some shift ∧ (0.0 : α) < shift
  none_iff : past.Returned → ended.Returns → (ended.carried = none ↔
    (past.push ended).reported? = none ∨ (past.push ended).reported? = some 0.0)
  refused_keeps : ∀ error, ended.outcome = .error (.error error) → ended.carried = past.carried
  first_le : seed config past.carried ≤ config.maxDelta
  refused_tries : ∀ error, ended.outcome = .error (.error error) →
    Kernel.factorise (request.hessian.shift (seed config past.carried)) = none ∧
      0 < ended.events.size
  forward : config.schedule = .carryForward → ∀ last d d', past.results.head? = some last →
    last.outcome = .ok d → (0.0 : α) < d.regularisation →
    ended.outcome = .ok d' → (0.0 : α) < d'.regularisation →
      d.regularisation / config.gamma ≤ d'.regularisation
  reset : config.schedule = .resetEachIteration →
    ended.outcome = (History.fresh.answer config attempts request).outcome

include hvalid in
/-- Whatever a stabiliser with a valid configuration has been called with, and however those calls
ended, every further call finds a shift that may be tried and leaves one between the seed and the
cap, namely the one that was reported with the last direction. -/
theorem history_carriesOn (attempts : ℕ) (requests : List (Request α)) (request : Request α) :
    CarriesOn config attempts (history config attempts requests) request
      ((history config attempts requests).answer config attempts request) := by
  have hkept := history_kept hvalid attempts requests
  generalize history config attempts requests = past at hkept
  generalize hended : past.answer config attempts request = ended
  have hcarries : Carries config past.carried ended := by
    rw [← hended]
    exact shiftDirection_carries ..
  have hfirst := seed_le_maxDelta hvalid hkept.bounded
  exact {
    bounded := hcarries.bounded hvalid hkept.bounded
    carried_iff := fun hreturned hreturns =>
      (hcarries.agrees hvalid hreturns (hkept.agrees hreturned)).carried_iff
    none_iff := fun hreturned hreturns =>
      (hcarries.agrees hvalid hreturns (hkept.agrees hreturned)).none_iff
    refused_keeps := fun error herror => by
      rw [← hended] at herror ⊢
      obtain ⟨k, -, -, hrefused⟩ := shiftDirection_refused herror
      exact congrArg Stabilised.carried hrefused
    first_le := hfirst
    refused_tries := fun error herror => by
      rw [← hended] at herror ⊢
      obtain ⟨k, hearlier, habove, hrefused⟩ := shiftDirection_refused herror
      -- The first shift is not above the cap, so it is one of those that were refused.
      have hk : 0 < k := Nat.pos_of_ne_zero fun hzero => habove (by rw [hzero]; exact hfirst)
      refine ⟨(hearlier 0 hk).2, ?_⟩
      rw [History.answer, hrefused, size_rejections]
      exact hk
    forward := fun hschedule last d d' hlast hd hpos hd' hpos' => by
      have hcarried := hkept.last last hlast d hd hpos
      obtain ⟨-, k, hshift⟩ := hcarries.of_pos hd' hpos'
      have hlow := (hkept.bounded _ hcarried).1
      calc d.regularisation / config.gamma
          ≤ seed config past.carried := by
            rw [hcarried]
            exact div_gamma_le_seed hvalid hschedule hlow
        _ ≤ d'.regularisation := by
            rw [hshift]
            exact (seed_le_shiftAt hvalid past.carried k).2
    reset := fun hschedule => by
      rw [← hended]
      exact outcome_of_reset hschedule attempts past.carried none request.hessian request.gradient
        request.iteration }

/-- A curvature of minus one half leaves a shift of one, and with that at the cap a curvature of
minus five is refused. The shift is kept. -/
theorem history_carriesOn_refused :
    let config : ShiftConfig Float := ⟨10.0, 0.1, 1.0, .carryForward⟩
    let past := history config 5 [⟨⟨[[1.0, 0.0], [0.0, -0.5]]⟩, [1.0, 1.0], 0⟩]
    let request : Request Float := ⟨⟨[[-5.0]]⟩, [1.0], 1⟩
    config.validate = .ok () ∧ past.carried = some 1.0 ∧ past.Returned ∧
      (past.answer config 5 request).Returns ∧
      CarriesOn config 5 past request (past.answer config 5 request) ∧
      (past.answer config 5 request).carried = some 1.0 := by
  intro config past request
  have hvalid : config.validate = .ok () := by decide +kernel
  have hpast : past.results.all fun ended => ended.outcome.toOption.isSome := by decide +kernel
  have hended : (past.answer config 5 request).outcome =
      .error (.error (.regularisationOverflow 10.0 1.0 1)) := by decide +kernel
  refine ⟨hvalid, by decide +kernel, ?_, ?_, history_carriesOn hvalid 5 _ request,
    by decide +kernel⟩
  · intro ended hmem fault hfault
    have hsome := List.all_eq_true.mp hpast ended hmem
    rw [hfault] at hsome
    contradiction
  · intro fault hfault
    cases hended.symm.trans hfault

end Histories

end Stabiliser

end Downhill
