import Mathlib
import Downhill.Proofs.Exact.Derivatives
import Downhill.Proofs.Exact.Systems
import Downhill.Proofs.Run.Stages

/-! # The signature of a spring's Hessian

In exact arithmetic, the form of the exact Hessian is a sum of two squares: by how much a change
stretches the spring, and by how much it turns it. Their signs depend on the length of the spring.
As a spring does not notice translations, its exact Hessian is never positive definite, and plain
Newton gets no further than its start.
-/

open Matrix

namespace Downhill

/-! ## Plain Newton where the Hessian is not positive definite -/

section Newton

open Descent Session

variable [Kernel ℝ] [ExactFactorisation] {n : ℕ} {problem : Problem ℝ} {f : (Fin n → ℝ) → ℝ}
  {g : (Fin n → ℝ) → Fin n → ℝ} {H : (Fin n → ℝ) → RealMatrix n}
  (hcomputes : problem.answers.Computes f g H) {x : Fin n → ℝ} (hsymm : (H x).IsSymm)
  (hdefinite : ¬ (H x).PosDef) {attempts : ℕ} {σ : Type}

include hcomputes hsymm hdefinite

/-- There is no direction for a step. -/
theorem Answers.Computes.newton_step_refused (config : SearchConfig ℝ) (gradient : Vec ℝ)
    (state : Convergence ℝ) (s : Session σ ℝ) :
    step .newton attempts (problem.objective σ) config (List.ofFn x) gradient state s =
      (.error (.error (.hessianNotPositiveDefinite state.iteration)), s) := by
  have hhessian : (problem.objective σ).hessian (List.ofFn x) s.objective =
      (.ok (tabulate (H x)), s.objective) := Prod.ext (hcomputes.hessian x) rfl
  have hsolver : (tabulate (H x)).solver? = .ok none := solver?_of_not_posDef hsymm hdefinite
  simp only [step, bind_apply, Rule.direction, evaluate, hhessian, hsolver, settle_ok_apply]
  rfl

/-- From such a point plain Newton does not step: the point is convergent, or there is no
direction. -/
theorem Answers.Computes.newton_stays {config : SolverConfig ℝ} (hconfig : config.validate = .ok ())
    (hcap : 1 ≤ config.maxIterations) (inherited : Option ℝ) (o : σ) :
    (solve .newton attempts (problem.objective σ) config (List.ofFn x) (.start o inherited)).1 =
      if Vec.normSq (List.ofFn (g x)) ≤ config.threshold then
        .ok ⟨List.ofFn x, 0, true, f x, Vec.normSq (List.ofFn (g x))⟩
      else .error (.error (.hessianNotPositiveDefinite 0)) := by
  have hadmissible : Admissible .newton config (problem.objective σ).unknowns (List.ofFn x) := by
    apply Admissible.newton hconfig
    rw [List.length_ofFn]
    exact hcomputes.unknowns.symm
  obtain ⟨log, hsolve⟩ := solve_of_admissible hadmissible (start o inherited)
  obtain ⟨m, hm⟩ : ∃ m, config.maxIterations = m + 1 := ⟨_, (Nat.sub_add_cancel hcap).symm⟩
  let looked := (Convergence.start config).observe (Vec.normSq (List.ofFn (g x)))
  have hlook : look (problem.objective σ) (List.ofFn x) (.start config)
      { start o inherited with log } =
        (.ok (List.ofFn (g x), looked), { start o inherited with log }) :=
    look_eq (Prod.ext (hcomputes.gradient x) rfl) rfl
  rw [hsolve, hm, remainder_succ, bind_apply, hlook]
  dsimp only
  split
  · rename_i hmet
    have hbelow : Vec.normSq (List.ofFn (g x)) ≤ config.threshold := of_decide_eq_true hmet
    rw [conclude_eq (Prod.ext (hcomputes.value x) rfl), if_pos hbelow]
    simp only [Convergence.solution, hmet]
    rfl
  · rename_i hunmet
    have habove : ¬ Vec.normSq (List.ofFn (g x)) ≤ config.threshold := fun hbelow =>
      hunmet (decide_eq_true hbelow)
    rw [bind_apply, hcomputes.newton_step_refused hsymm hdefinite, if_neg habove]
    rfl

end Newton

/-! ## Stretching and turning -/

namespace Spring

variable (p : Spring ℝ)

/-- By how much the change `h` moves the nodes apart along the spring, times its length. -/
def stretch (x h : Fin 4 → ℝ) : ℝ :=
  (offsetAt x).1 * (offsetAt h).1 + (offsetAt x).2 * (offsetAt h).2

/-- By how much the change `h` moves the nodes apart across the spring, times its length. -/
def turn (x h : Fin 4 → ℝ) : ℝ :=
  (offsetAt x).1 * (offsetAt h).2 - (offsetAt x).2 * (offsetAt h).1

/-- The square of the length. -/
def lengthSq (x : Fin 4 → ℝ) : ℝ := (offsetAt x).1 ^ 2 + (offsetAt x).2 ^ 2

theorem lengthSq_pos {x : Fin 4 → ℝ} (h : x 0 ≠ x 2 ∨ x 1 ≠ x 3) : 0 < lengthSq x := by
  rw [lengthSq]
  rcases h with h | h
  · have hdx : (offsetAt x).1 ≠ 0 := sub_ne_zero.mpr h
    positivity
  · have hdy : (offsetAt x).2 ≠ 0 := sub_ne_zero.mpr h
    positivity

/-- A spring with a length can be stretched and turned independently. -/
theorem exists_change {x : Fin 4 → ℝ} (hx : 0 < lengthSq x) (a b : ℝ) :
    ∃ h : Fin 4 → ℝ, stretch x h = a ∧ turn x h = b := by
  have hoffset (u v : ℝ) : offsetAt ![u, v, 0, 0] = (u, v) := by simp [offsetAt]
  let dx := (offsetAt x).1
  let dy := (offsetAt x).2
  refine ⟨![(a * dx - b * dy) / lengthSq x, (a * dy + b * dx) / lengthSq x, 0, 0], ?_, ?_⟩
  · rw [stretch, hoffset, ← mul_div_assoc, ← mul_div_assoc, ← add_div, div_eq_iff hx.ne', lengthSq]
    ring
  · rw [turn, hoffset, ← mul_div_assoc, ← mul_div_assoc, ← sub_div, div_eq_iff hx.ne', lengthSq]
    ring

theorem hessianAt_form_squares {x : Fin 4 → ℝ} (hx : 0 < lengthSq x) (h : Fin 4 → ℝ) :
    h ⬝ᵥ p.hessianAt x *ᵥ h = 2 * p.stiffness / lengthSq x *
      ((3 * lengthSq x - p.restLength ^ 2) * stretch x h ^ 2 +
        (lengthSq x - p.restLength ^ 2) * turn x h ^ 2) := by
  rw [div_mul_eq_mul_div, eq_div_iff hx.ne', hessianAt_form, strain, lengthSq, stretch, turn]
  simp only [offsetAt]
  ring

/-! ## Signs of the form -/

section Signs

variable {p} (hstiff : 0 < p.stiffness) {x : Fin 4 → ℝ} (hx : 0 < lengthSq x)

include hstiff hx

theorem form_nonneg_iff (h : Fin 4 → ℝ) : 0 ≤ h ⬝ᵥ p.hessianAt x *ᵥ h ↔
    0 ≤ (3 * lengthSq x - p.restLength ^ 2) * stretch x h ^ 2 +
      (lengthSq x - p.restLength ^ 2) * turn x h ^ 2 := by
  rw [p.hessianAt_form_squares hx, mul_nonneg_iff_of_pos_left (by positivity)]

theorem form_nonpos_iff (h : Fin 4 → ℝ) : h ⬝ᵥ p.hessianAt x *ᵥ h ≤ 0 ↔
    (3 * lengthSq x - p.restLength ^ 2) * stretch x h ^ 2 +
      (lengthSq x - p.restLength ^ 2) * turn x h ^ 2 ≤ 0 := by
  rw [p.hessianAt_form_squares hx, ← not_lt, mul_pos_iff_of_pos_left (by positivity), not_lt]

theorem hessianAt_nonneg_iff :
    (∀ h, 0 ≤ h ⬝ᵥ p.hessianAt x *ᵥ h) ↔ p.restLength ^ 2 ≤ lengthSq x := by
  simp only [form_nonneg_iff hstiff hx]
  constructor
  · intro hall
    obtain ⟨h, hstretch, hturn⟩ := exists_change hx 0 1
    have hturned := hall h
    rw [hstretch, hturn] at hturned
    linarith
  · intro hlong h
    have hturn : 0 ≤ lengthSq x - p.restLength ^ 2 := sub_nonneg.mpr hlong
    have hstretch : 0 ≤ 3 * lengthSq x - p.restLength ^ 2 := by linarith
    positivity

theorem hessianAt_nonpos_iff :
    (∀ h, h ⬝ᵥ p.hessianAt x *ᵥ h ≤ 0) ↔ 3 * lengthSq x ≤ p.restLength ^ 2 := by
  simp only [form_nonpos_iff hstiff hx]
  constructor
  · intro hall
    obtain ⟨h, hstretch, hturn⟩ := exists_change hx 1 0
    have hstretched := hall h
    rw [hstretch, hturn] at hstretched
    linarith
  · intro hshort h
    have hturn : lengthSq x - p.restLength ^ 2 ≤ 0 := by linarith
    have hstretch : 3 * lengthSq x - p.restLength ^ 2 ≤ 0 := sub_nonpos.mpr hshort
    exact add_nonpos (mul_nonpos_of_nonpos_of_nonneg hstretch (sq_nonneg _))
      (mul_nonpos_of_nonpos_of_nonneg hturn (sq_nonneg _))

end Signs

/-- The matrix `H` has the signs of an exact Hessian where the nodes are apart by `r` and the rest
length is `l`. -/
structure Signature (H : RealMatrix 4) (r l : ℝ) : Prop where
  /-- Translations of both nodes are not noticed. -/
  translation : ∀ a b : ℝ, H *ᵥ ![a, b, a, b] = 0
  not_posDef : ¬ H.PosDef
  nonneg_iff : (∀ h, 0 ≤ h ⬝ᵥ H *ᵥ h) ↔ l ≤ r
  indefinite_iff : (∃ h₁ h₂, h₁ ⬝ᵥ H *ᵥ h₁ < 0 ∧ 0 < h₂ ⬝ᵥ H *ᵥ h₂) ↔ r < l ∧ l ^ 2 < 3 * r ^ 2
  nonpos_iff : (∀ h, h ⬝ᵥ H *ᵥ h ≤ 0) ↔ 3 * r ^ 2 ≤ l ^ 2

theorem hessianAt_translation (x : Fin 4 → ℝ) (a b : ℝ) : p.hessianAt x *ᵥ ![a, b, a, b] = 0 := by
  ext i
  fin_cases i <;> simp [hessianAt, mulVec, dotProduct, Fin.sum_univ_four]

theorem hessianAt_not_posDef (x : Fin 4 → ℝ) : ¬ (p.hessianAt x).PosDef := by
  intro hposDef
  have hne : ![1, 1, 1, 1] ≠ (0 : Fin 4 → ℝ) := fun hzero => by simpa using congrFun hzero 0
  have hform := hposDef.dotProduct_mulVec_pos hne
  rw [hessianAt_translation, dotProduct_zero] at hform
  exact lt_irrefl _ hform

theorem hessianAt_signature (hstiff : 0 < p.stiffness) (hrest : 0 < p.restLength)
    {x : Fin 4 → ℝ} (hx : 0 < lengthSq x) :
    Signature (p.hessianAt x) √(lengthSq x) p.restLength := by
  have hsq : √(lengthSq x) ^ 2 = lengthSq x := Real.sq_sqrt hx.le
  have hlong : p.restLength ^ 2 ≤ lengthSq x ↔ p.restLength ≤ √(lengthSq x) :=
    (Real.le_sqrt' hrest).symm
  have hnonneg := hessianAt_nonneg_iff hstiff hx
  have hnonpos := hessianAt_nonpos_iff hstiff hx
  constructor
  case translation => exact p.hessianAt_translation x
  case not_posDef => exact p.hessianAt_not_posDef x
  case nonneg_iff => rw [hnonneg, hlong]
  case nonpos_iff => rw [hnonpos, hsq]
  case indefinite_iff =>
    rw [hsq, ← not_le, ← hlong, ← hnonneg, ← not_le, ← hnonpos]
    simp only [not_forall, not_le]
    exact ⟨fun ⟨h₁, h₂, hneg, hpos⟩ => ⟨⟨h₁, hneg⟩, h₂, hpos⟩,
      fun ⟨⟨h₁, hneg⟩, h₂, hpos⟩ => ⟨h₁, h₂, hneg, hpos⟩⟩

theorem length_ofFn (x : Fin 4 → ℝ) : p.length (List.ofFn x) = .ok √(lengthSq x) := by
  rw [length, offset_ofFn, lengthSq, sq, sq]
  rfl

/-- The exact Hessian of a spring is positive semidefinite if the spring is not compressed,
indefinite if it is compressed a little, and negative semidefinite if it is compressed a lot. As it
is never positive definite, plain Newton does not leave a start that is not convergent. -/
theorem exactHessian_signature [Kernel ℝ] [ExactFactorisation] (hstiff : 0 < p.stiffness) :
    (0 < p.restLength → ∀ x : Fin 4 → ℝ, x 0 ≠ x 2 ∨ x 1 ≠ x 3 → ∃ H r,
      p.exactHessian (List.ofFn x) = .ok (tabulate H) ∧ p.length (List.ofFn x) = .ok r ∧
        Signature H r p.restLength) ∧
    (p.mode = .exact → ∀ config : SolverConfig ℝ, config.validate = .ok () →
      1 ≤ config.maxIterations → ∀ (x0 : Fin 4 → ℝ) (attempts : ℕ) (inherited : Option ℝ)
        (σ : Type) (o : σ),
        ∃ value gradient, p.value (List.ofFn x0) = .ok value ∧
          p.gradient (List.ofFn x0) = .ok gradient ∧
          (solve .newton attempts ((Problem.spring p).objective σ) config (List.ofFn x0)
              (.start o inherited)).1 =
            if gradient.normSq ≤ config.threshold then
              .ok ⟨List.ofFn x0, 0, true, value, gradient.normSq⟩
            else .error (.error (.hessianNotPositiveDefinite 0))) := by
  constructor
  · intro hrest x hx
    exact ⟨p.hessianAt x, √(lengthSq x), p.exactHessian_ofFn x, p.length_ofFn x,
      p.hessianAt_signature hstiff hrest (lengthSq_pos hx)⟩
  · intro hmode config hconfig hcap x0 attempts inherited σ o
    have hcomputes := p.computes hmode
    refine ⟨_, _, hcomputes.value x0, hcomputes.gradient x0, ?_⟩
    exact hcomputes.newton_stays (p.hessianAt_isSymm x0) (p.hessianAt_not_posDef x0) hconfig hcap
      inherited o

/-- A spring at seven tenths of its length: its Hessian takes both signs, and plain Newton refuses
the start. -/
theorem compressed_signature :
    (∃ H : RealMatrix 4,
      (⟨1, 1, .exact⟩ : Spring ℝ).exactHessian [0, 0, 0.7, 0] = .ok (tabulate H) ∧
        ∃ h₁ h₂, h₁ ⬝ᵥ H *ᵥ h₁ < 0 ∧ 0 < h₂ ⬝ᵥ H *ᵥ h₂) ∧
    (solve .newton 100 ((Problem.spring ⟨1, 1, .exact⟩).objective Unit) .default [0, 0, 0.7, 0]
      (.start ())).1 = (.error (.error (.hessianNotPositiveDefinite 0)) :
        Except (Stop ℝ) (Solution ℝ)) := by
  let p : Spring ℝ := ⟨1, 1, .exact⟩
  have hlist : List.ofFn ![0, 0, 0.7, 0] = [0, 0, 0.7, (0 : ℝ)] := by simp
  have hlength : lengthSq ![0, 0, 0.7, 0] = 0.49 := by
    simp only [lengthSq, offsetAt, cons_val]
    norm_num
  obtain ⟨hsigns, hnewton⟩ := p.exactHessian_signature one_pos
  constructor
  · have hapart : ![0, 0, 0.7, 0] 0 ≠ (![0, 0, 0.7, 0] : Fin 4 → ℝ) 2 := by
      simp only [cons_val]
      norm_num
    obtain ⟨H, r, hH, hr, hsignature⟩ := hsigns one_pos _ (.inl hapart)
    rw [length_ofFn, hlength, Except.ok.injEq] at hr
    have hsq : r ^ 2 = 0.49 := by
      rw [← hr]
      exact Real.sq_sqrt (by norm_num)
    have hshort : r < 1 := by
      rw [← hr]
      exact (Real.sqrt_lt' one_pos).mpr (by norm_num)
    refine ⟨H, hlist ▸ hH, hsignature.indefinite_iff.mpr ⟨hshort, ?_⟩⟩
    rw [hsq]
    norm_num [p]
  · obtain ⟨value, gradient, -, hgradient, hresult⟩ :=
      hnewton rfl .default SolverConfig.default_validate (by decide) ![0, 0, 0.7, 0] 100 none
        Unit ()
    have habove : ¬ gradient.normSq ≤ (SolverConfig.default : SolverConfig ℝ).threshold := by
      rw [← Except.ok.inj (((p.computes rfl).gradient _).symm.trans hgradient), Vec.normSq,
        Vec.inner_ofFn]
      simp only [p, gradientAt, strain, dotProduct, Fin.sum_univ_four, cons_val]
      norm_num [SolverConfig.default, SolverConfig.threshold]
    rwa [if_neg habove, hlist] at hresult

end Spring

end Downhill
