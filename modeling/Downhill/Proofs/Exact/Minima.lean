import Mathlib
import Downhill.Proofs.Exact.Derivatives

/-! # Minima of the problems

In exact arithmetic, what the problems advertise as their minimisers are the points where their
values are least, and there are no others. Apart from the saddle, whose gradient also vanishes at
the origin, the gradients vanish nowhere else.
-/

open Matrix

namespace Downhill

variable {n : ℕ}

/-! ## Landscapes -/

/-- The values have a least one, which is taken at the minima only; the gradient vanishes at the
stationary points only. -/
structure Answers.Landscape (p : Answers ℝ) (least : ℝ) (minima stationary : Set (Fin n → ℝ)) :
    Prop where
  value : ∀ x : Fin n → ℝ, ∃ v, p.value (List.ofFn x) = .ok v ∧ least ≤ v ∧
    (v = least ↔ x ∈ minima)
  gradient : ∀ x : Fin n → ℝ, p.gradient (List.ofFn x) = .ok (List.ofFn (0 : Fin n → ℝ)) ↔
    x ∈ stationary

theorem Answers.Computes.landscape {p : Answers ℝ} {f : (Fin n → ℝ) → ℝ}
    {g : (Fin n → ℝ) → Fin n → ℝ} {H : (Fin n → ℝ) → RealMatrix n} (h : p.Computes f g H)
    {least : ℝ} {minima stationary : Set (Fin n → ℝ)} (hleast : ∀ x, least ≤ f x)
    (hminima : ∀ x, f x = least ↔ x ∈ minima) (hstationary : ∀ x, g x = 0 ↔ x ∈ stationary) :
    p.Landscape least minima stationary where
  value x := ⟨f x, h.value x, hleast x, hminima x⟩
  gradient x := by
    rw [h.gradient, Except.ok.injEq, List.ofFn_injective.eq_iff]
    exact hstationary x

/-! ## Quadratics -/

section Forms

variable {S : RealMatrix n} {b m : Fin n → ℝ}

/-- The square is completed at a point where the gradient vanishes. -/
theorem quadraticForm_eq_add (hsymm : S.IsSymm) (hm : S *ᵥ m = b) (x : Fin n → ℝ) :
    quadraticForm S b x = quadraticForm S b m + 1 / 2 * ((x - m) ⬝ᵥ S *ᵥ (x - m)) := by
  have hadd := quadraticForm_add hsymm b m (x - m)
  rwa [add_sub_cancel, hm, sub_self, zero_dotProduct, add_zero] at hadd

variable (hposDef : S.PosDef) (hm : S *ᵥ m = b)

include hposDef hm

theorem quadraticForm_lt_of_ne {x : Fin n → ℝ} (hx : x ≠ m) :
    quadraticForm S b m < quadraticForm S b x := by
  rw [quadraticForm_eq_add (by simpa using hposDef.isHermitian) hm x]
  have hform := hposDef.dotProduct_mulVec_pos (sub_ne_zero.mpr hx)
  rw [star_trivial] at hform
  linarith

theorem quadraticForm_landscape {p : Answers ℝ}
    (h : p.Computes (quadraticForm S b) (fun x => S *ᵥ x - b) fun _ => S) :
    p.Landscape (quadraticForm S b m) {m} {m} := by
  refine h.landscape (fun x => ?_) (fun x => ?_) fun x => ?_
  · by_cases hx : x = m
    · rw [hx]
    · exact (quadraticForm_lt_of_ne hposDef hm hx).le
  · constructor
    · intro hvalue
      by_contra hx
      exact (quadraticForm_lt_of_ne hposDef hm hx).ne' hvalue
    · rintro rfl
      rfl
  · rw [sub_eq_zero, ← hm]
    exact (mulVec_injective_iff_isUnit.mpr hposDef.isUnit).eq_iff

end Forms

namespace Quadratic.Represents

variable [Kernel ℝ] [ExactFactorisation] {q : Quadratic ℝ} {S : RealMatrix n} {b : Fin n → ℝ}
  (h : q.Represents S b)

include h

theorem minimiser_eq_none (hsymm : S.IsSymm) (hdefinite : ¬ S.PosDef) :
    q.minimiser = .ok none := by
  rw [minimiser, h.matrix_eq, solver?_of_not_posDef hsymm hdefinite]
  rfl

theorem minimiser_eq_none_iff (hsymm : S.IsSymm) : q.minimiser = .ok none ↔ ¬ S.PosDef := by
  refine ⟨fun hnone hposDef => ?_, h.minimiser_eq_none hsymm⟩
  obtain ⟨m, hm, -⟩ := h.exists_minimiser hposDef
  cases hnone.symm.trans hm

theorem exists_minimiser_iff (hsymm : S.IsSymm) :
    (∃ m, q.minimiser = .ok (some m)) ↔ S.PosDef := by
  constructor
  · rintro ⟨m, hm⟩
    by_contra hdefinite
    cases hm.symm.trans (h.minimiser_eq_none hsymm hdefinite)
  · intro hposDef
    obtain ⟨m, hm, -⟩ := h.exists_minimiser hposDef
    exact ⟨_, hm⟩

/-- The minimiser solves the system of a positive definite matrix. -/
theorem of_minimiser (hsymm : S.IsSymm) {m : Vec ℝ} (hm : q.minimiser = .ok (some m)) :
    S.PosDef ∧ ∃ v : Fin n → ℝ, m = List.ofFn v ∧ S *ᵥ v = b := by
  have hposDef := (h.exists_minimiser_iff hsymm).mp ⟨m, hm⟩
  obtain ⟨v, hv, hsystem⟩ := h.exists_minimiser hposDef
  rw [hv] at hm
  cases hm
  exact ⟨hposDef, v, rfl, hsystem⟩

end Quadratic.Represents

/-! ## The Rosenbrock valley -/

theorem eq_cons_iff {x : Fin 2 → ℝ} {u v : ℝ} : x = ![u, v] ↔ x 0 = u ∧ x 1 = v := by
  simp [funext_iff, Fin.forall_fin_two]

namespace Rosenbrock

variable (p : Rosenbrock ℝ)

/-- The minimiser is where both squares vanish. -/
theorem eq_minimiser_iff {x : Fin 2 → ℝ} :
    x = ![p.a, p.a * p.a] ↔ p.a - x 0 = 0 ∧ x 1 - x 0 * x 0 = 0 := by
  rw [eq_cons_iff, sub_eq_zero, sub_eq_zero]
  constructor
  · rintro ⟨hfst, hsnd⟩
    rw [hfst, hsnd]
    exact ⟨rfl, rfl⟩
  · rintro ⟨hfst, hsnd⟩
    exact ⟨hfst.symm, by rw [hsnd, ← hfst]⟩

theorem landscape [Kernel ℝ] (hb : 0 < p.b) :
    (Problem.rosenbrock p).answers.Landscape 0 {![p.a, p.a * p.a]} {![p.a, p.a * p.a]} := by
  have hvalue (x : Fin 2 → ℝ) :
      p.valueAt x = (p.a - x 0) ^ 2 + p.b * (x 1 - x 0 * x 0) ^ 2 := by
    rw [valueAt, Scalar.sq, Scalar.sq, sq, sq]
  refine p.computes.landscape (fun x => ?_) (fun x => ?_) fun x => ?_
  · rw [hvalue]
    positivity
  · rw [hvalue, add_eq_zero_iff_of_nonneg (sq_nonneg _) (by positivity),
      mul_eq_zero_iff_left hb.ne', sq_eq_zero_iff, sq_eq_zero_iff]
    exact p.eq_minimiser_iff.symm
  · simp only [gradientAt, cons_eq_zero_iff, zero_empty, and_true]
    rw [Set.mem_singleton_iff, eq_minimiser_iff]
    have htwo : (2.0 : ℝ) ≠ 0 := by norm_num
    constructor
    · rintro ⟨hfst, hsnd⟩
      -- The second coordinate of the gradient vanishes on the floor of the valley only.
      have hfloor : x 1 - x 0 * x 0 = 0 := by
        simpa [htwo, hb.ne'] using hsnd
      rw [hfloor] at hfst
      exact ⟨by simpa [htwo] using hfst, hfloor⟩
    · rintro ⟨hfst, hsnd⟩
      rw [hfst, hsnd]
      norm_num

end Rosenbrock

/-! ## The saddle -/

namespace Saddle

variable (p : Saddle ℝ)

theorem valueAt_eq_add (x : Fin 2 → ℝ) : p.valueAt x =
    minValue + (p.curvature / 2 * x 0 ^ 2 + 1 / 4 * (x 1 ^ 2 - 1) ^ 2) := by
  rw [valueAt, minValue, Scalar.sq, Scalar.sq]
  norm_num
  ring

theorem mem_minima_iff {x : Fin 2 → ℝ} :
    x ∈ ({![0, 1], ![0, -1]} : Set (Fin 2 → ℝ)) ↔ x 0 = 0 ∧ x 1 ^ 2 - 1 = 0 := by
  simp [eq_cons_iff, ← and_or_left, sub_eq_zero]

theorem mem_stationary_iff {x : Fin 2 → ℝ} :
    x ∈ ({![0, 1], ![0, -1], ![0, 0]} : Set (Fin 2 → ℝ)) ↔
      x 0 = 0 ∧ (x 1 ^ 2 - 1 = 0 ∨ x 1 = 0) := by
  simp [eq_cons_iff, ← and_or_left, sub_eq_zero, or_assoc]

theorem landscape [Kernel ℝ] (hcurvature : 0 < p.curvature) :
    (Problem.saddle p).answers.Landscape minValue {![0, 1], ![0, -1]}
      {![0, 1], ![0, -1], ![0, 0]} := by
  refine p.computes.landscape (fun x => ?_) (fun x => ?_) fun x => ?_
  · rw [valueAt_eq_add]
    exact le_add_of_nonneg_right (by positivity)
  · rw [valueAt_eq_add, add_eq_left, add_eq_zero_iff_of_nonneg (by positivity) (by positivity),
      mem_minima_iff]
    simp [hcurvature.ne']
  · have hfactors : x 1 * x 1 * x 1 - x 1 = (x 1 ^ 2 - 1) * x 1 := by ring
    rw [mem_stationary_iff, gradientAt, hfactors, cons_eq_zero_iff, cons_eq_zero_iff,
      mul_eq_zero_iff_left hcurvature.ne', mul_eq_zero]
    simp

end Saddle

/-! ## All problems -/

/-- The advertised minimisers are the global ones. -/
theorem minimisers_global [Kernel ℝ] [ExactFactorisation] :
    (∀ (n : ℕ) (A : RealMatrix n) (b : Fin n → ℝ) (q : Quadratic ℝ),
      Quadratic.make (tabulate A) (List.ofFn b) = .ok q →
        ((∃ m, q.minimiser = .ok (some m)) ↔ (symmetricPart A).PosDef) ∧
        (q.minimiser = .ok none ↔ ¬ (symmetricPart A).PosDef) ∧
        ∀ m, q.minimiser = .ok (some m) → ∃ (v : Fin n → ℝ) (least : ℝ),
          m = List.ofFn v ∧ q.value m = .ok least ∧
          (∀ x : Fin n → ℝ,
            q.value (List.ofFn x) = .ok (least + 1 / 2 * ((x - v) ⬝ᵥ A *ᵥ (x - v)))) ∧
          (Problem.quadratic q).answers.Landscape least {v} {v}) ∧
    (∀ p : Rosenbrock ℝ, 0 < p.b → ∃ v : Fin 2 → ℝ, p.minimiser = List.ofFn v ∧
      (Problem.rosenbrock p).answers.Landscape 0 {v} {v}) ∧
    ∀ p : Saddle ℝ, 0 < p.curvature →
      (Problem.saddle p).answers.Landscape Saddle.minValue {![0, 1], ![0, -1]}
        {![0, 1], ![0, -1], ![0, 0]} := by
  refine ⟨?_, ?_, ?_⟩
  · intro n A b q hmake
    have hsymm := symmetricPart_isSymm A
    have hq := Quadratic.represents_of_make hmake
    refine ⟨hq.exists_minimiser_iff hsymm, hq.minimiser_eq_none_iff hsymm, fun m hm => ?_⟩
    obtain ⟨hposDef, v, rfl, hv⟩ := hq.of_minimiser hsymm hm
    refine ⟨v, _, rfl, hq.value_ofFn v, fun x => ?_, quadraticForm_landscape hposDef hv hq.computes⟩
    rw [hq.value_ofFn, quadraticForm_eq_add hsymm hv, dotProduct_symmetricPart]
  · intro p hb
    exact ⟨_, by simp [Rosenbrock.minimiser], p.landscape hb⟩
  · exact fun p hcurvature => p.landscape hcurvature

/-- A matrix that is not symmetric, and the defaults of the other two problems. -/
theorem skewed_minimiser :
    (∃ (q : Quadratic ℝ) (v : Fin 2 → ℝ) (least : ℝ),
      Quadratic.make (tabulate !![1, 2; -2, 1]) [3, -1] = .ok q ∧
        q.minimiser = .ok (some (List.ofFn v)) ∧
        (Problem.quadratic q).answers.Landscape least {v} {v}) ∧
    (∃ v : Fin 2 → ℝ, List.ofFn v = [1, 1] ∧
      (Problem.rosenbrock .default).answers.Landscape 0 {v} {v}) ∧
    (Problem.saddle .default).answers.Landscape Saddle.minValue {![0, 1], ![0, -1]}
      {![0, 1], ![0, -1], ![0, 0]} := by
  obtain ⟨hquadratic, hrosenbrock, hsaddle⟩ := minimisers_global
  refine ⟨?_, ?_, ?_⟩
  · obtain ⟨q, hmake⟩ := Quadratic.exists_make !![1, 2; -2, 1] ![3, -1]
    have hposDef : (symmetricPart !![1, 2; -2, 1]).PosDef := by
      rw [symmetricPart_skewed]
      exact PosDef.one
    obtain ⟨hsome, -, hleast⟩ := hquadratic 2 _ _ q hmake
    obtain ⟨m, hm⟩ := hsome.mpr hposDef
    obtain ⟨v, least, rfl, -, -, hlandscape⟩ := hleast m hm
    exact ⟨q, v, least, by simpa using hmake, hm, hlandscape⟩
  · obtain ⟨v, hv, hlandscape⟩ := hrosenbrock .default (by norm_num [Rosenbrock.default])
    refine ⟨v, ?_, hlandscape⟩
    rw [← hv]
    norm_num [Rosenbrock.minimiser, Rosenbrock.default]
  · exact hsaddle .default (by norm_num [Saddle.default])

end Downhill
