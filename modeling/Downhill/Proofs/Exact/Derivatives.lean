import Mathlib
import Downhill.Proofs.Exact.Quadratic
import Downhill.Proofs.Exact.Smooth

/-! # Derivatives of the problems

The problems as functions of their coordinates. For each, the value at a displaced point is written
out: beyond the slope of the gradient and half the form of the Hessian, its terms are cubic and
quartic. A spring is meant here to report its exact Hessian.
-/

open Matrix

namespace Downhill

variable {n : ℕ}

theorem StartsAt.of_degrees {cubic quartic : MvPolynomial (Fin n) ℝ}
    (hcubic : cubic.IsHomogeneous 3) (hquartic : quartic.IsHomogeneous 4) :
    StartsAt 3 (cubic + quartic) :=
  (StartsAt.of_isHomogeneous hcubic le_rfl).add (.of_isHomogeneous hquartic (by omega))

/-! ## Quadratics -/

theorem Quadratic.Represents.computes [Kernel ℝ] {q : Quadratic ℝ} {S : RealMatrix n}
    {b : Fin n → ℝ} (h : q.Represents S b) :
    (Problem.quadratic q).answers.Computes (quadraticForm S b) (fun x => S *ᵥ x - b)
      fun _ => S where
  unknowns := h.unknowns_eq
  value := h.value_ofFn
  gradient := h.gradient_ofFn
  hessian _ := congrArg Except.ok h.matrix_eq

theorem quadraticForm_expands {S : RealMatrix n} (hsymm : S.IsSymm) (b : Fin n → ℝ) :
    Expands (quadraticForm S b) (fun x => S *ᵥ x - b) fun _ => S := by
  refine fun x => ⟨0, .zero, fun h => ?_⟩
  rw [quadraticForm_add hsymm, map_zero, add_zero]
  norm_num

/-! ## The Rosenbrock valley -/

namespace Rosenbrock

noncomputable def valueAt (p : Rosenbrock ℝ) (x : Fin 2 → ℝ) : ℝ :=
  Scalar.sq (p.a - x 0) + p.b * Scalar.sq (x 1 - x 0 * x 0)

noncomputable def gradientAt (p : Rosenbrock ℝ) (x : Fin 2 → ℝ) : Fin 2 → ℝ :=
  ![-2.0 * (p.a - x 0) - 4.0 * p.b * x 0 * (x 1 - x 0 * x 0), 2.0 * p.b * (x 1 - x 0 * x 0)]

noncomputable def hessianAt (p : Rosenbrock ℝ) (x : Fin 2 → ℝ) : RealMatrix 2 :=
  !![2.0 - 4.0 * p.b * (x 1 - x 0 * x 0) + 8.0 * p.b * x 0 * x 0, -4.0 * p.b * x 0;
    -4.0 * p.b * x 0, 2.0 * p.b]

variable (p : Rosenbrock ℝ)

theorem computes [Kernel ℝ] :
    (Problem.rosenbrock p).answers.Computes p.valueAt p.gradientAt p.hessianAt where
  unknowns := rfl
  value _ := rfl
  gradient _ := rfl
  hessian x := by
    refine congrArg (fun rows => Except.ok (Matrix.mk rows)) ?_
    simp [hessianAt]

theorem hessianAt_isSymm (x : Fin 2 → ℝ) : (p.hessianAt x).IsSymm := by
  ext i j
  fin_cases i <;> fin_cases j <;> rfl

open MvPolynomial in
theorem expands : Expands p.valueAt p.gradientAt p.hessianAt := by
  intro x
  let cubic : MvPolynomial (Fin 2) ℝ :=
    C (4 * p.b * x 0) * X 0 ^ 3 - C (2 * p.b) * (X 1 * X 0 ^ 2)
  let quartic : MvPolynomial (Fin 2) ℝ := C p.b * X 0 ^ 4
  refine ⟨cubic + quartic, .of_degrees ?_ ?_, fun h => ?_⟩
  · exact (((isHomogeneous_X _ 0).pow 3).C_mul _).sub
      (((isHomogeneous_X _ 1).mul ((isHomogeneous_X _ 0).pow 2)).C_mul _)
  · exact ((isHomogeneous_X _ 0).pow 4).C_mul _
  · norm_num [cubic, quartic, valueAt, gradientAt, hessianAt, Scalar.sq, dotProduct, mulVec,
      Fin.sum_univ_two]
    ring

end Rosenbrock

/-! ## The saddle -/

namespace Saddle

noncomputable def valueAt (p : Saddle ℝ) (x : Fin 2 → ℝ) : ℝ :=
  0.5 * p.curvature * x 0 * x 0 + 0.25 * Scalar.sq (Scalar.sq (x 1)) - 0.5 * x 1 * x 1

noncomputable def gradientAt (p : Saddle ℝ) (x : Fin 2 → ℝ) : Fin 2 → ℝ :=
  ![p.curvature * x 0, x 1 * x 1 * x 1 - x 1]

/-- The diagonal of the Hessian, which has no other entries. -/
noncomputable def curvaturesAt (p : Saddle ℝ) (x : Fin 2 → ℝ) : Fin 2 → ℝ :=
  ![p.curvature, 3.0 * x 1 * x 1 - 1.0]

variable (p : Saddle ℝ)

theorem computes [Kernel ℝ] :
    (Problem.saddle p).answers.Computes p.valueAt p.gradientAt
      fun x => diagonal (p.curvaturesAt x) where
  unknowns := rfl
  value _ := rfl
  gradient _ := rfl
  hessian x := congrArg Except.ok (diagonal_ofFn (p.curvaturesAt x))

open MvPolynomial in
theorem expands :
    Expands p.valueAt p.gradientAt fun x => diagonal (p.curvaturesAt x) := by
  intro x
  let cubic : MvPolynomial (Fin 2) ℝ := C (x 1) * X 1 ^ 3
  let quartic : MvPolynomial (Fin 2) ℝ := C 0.25 * X 1 ^ 4
  refine ⟨cubic + quartic, .of_degrees ?_ ?_, fun h => ?_⟩
  · exact ((isHomogeneous_X _ 1).pow 3).C_mul _
  · exact ((isHomogeneous_X _ 1).pow 4).C_mul _
  · norm_num [cubic, quartic, valueAt, gradientAt, curvaturesAt, Scalar.sq, dotProduct,
      mulVec_diagonal, Fin.sum_univ_two]
    ring

end Saddle

/-! ## The spring -/

namespace Spring

noncomputable def valueAt (p : Spring ℝ) (x : Fin 4 → ℝ) : ℝ :=
  let s := p.strain (x 0 - x 2) (x 1 - x 3)
  0.5 * p.stiffness * s * s

noncomputable def gradientAt (p : Spring ℝ) (x : Fin 4 → ℝ) : Fin 4 → ℝ :=
  let dx := x 0 - x 2
  let dy := x 1 - x 3
  let scale := 2.0 * p.stiffness * p.strain dx dy
  ![scale * dx, scale * dy, -scale * dx, -scale * dy]

noncomputable def hessianAt (p : Spring ℝ) (x : Fin 4 → ℝ) : RealMatrix 4 :=
  let dx := x 0 - x 2
  let dy := x 1 - x 3
  let s := p.strain dx dy
  let k2 := 2.0 * p.stiffness
  let b00 := k2 * (s + 2.0 * dx * dx)
  let b01 := k2 * 2.0 * dx * dy
  let b11 := k2 * (s + 2.0 * dy * dy)
  !![b00, b01, -b00, -b01; b01, b11, -b01, -b11; -b00, -b01, b00, b01; -b01, -b11, b01, b11]

variable (p : Spring ℝ)

/-- The first node as seen from the second, by its coordinates. -/
def offsetAt (x : Fin 4 → ℝ) : ℝ × ℝ := (x 0 - x 2, x 1 - x 3)

theorem offset_ofFn (x : Fin 4 → ℝ) : offset (List.ofFn x) = .ok (offsetAt x) := rfl

theorem exactHessian_ofFn (x : Fin 4 → ℝ) :
    p.exactHessian (List.ofFn x) = .ok (tabulate (p.hessianAt x)) := by
  refine congrArg (fun rows => Except.ok (Matrix.mk rows)) ?_
  simp [hessianAt, List.ofFn_succ]

theorem computes [Kernel ℝ] (hmode : p.mode = .exact) :
    (Problem.spring p).answers.Computes p.valueAt p.gradientAt p.hessianAt where
  unknowns := rfl
  value _ := rfl
  gradient _ := rfl
  hessian x := by
    change p.hessian (List.ofFn x) = _
    rw [hessian, exactHessian_ofFn, hmode]
    rfl

theorem hessianAt_isSymm (x : Fin 4 → ℝ) : (p.hessianAt x).IsSymm := by
  ext i j
  fin_cases i <;> fin_cases j <;> rfl

theorem gradientAt_dotProduct (x h : Fin 4 → ℝ) :
    p.gradientAt x ⬝ᵥ h = 2 * p.stiffness * p.strain (x 0 - x 2) (x 1 - x 3) *
      ((x 0 - x 2) * (h 0 - h 2) + (x 1 - x 3) * (h 1 - h 3)) := by
  simp only [gradientAt, dotProduct, Fin.sum_univ_four, cons_val]
  norm_num
  ring

theorem hessianAt_form (x h : Fin 4 → ℝ) :
    h ⬝ᵥ p.hessianAt x *ᵥ h = 2 * p.stiffness *
      (p.strain (x 0 - x 2) (x 1 - x 3) * ((h 0 - h 2) ^ 2 + (h 1 - h 3) ^ 2) +
        2 * ((x 0 - x 2) * (h 0 - h 2) + (x 1 - x 3) * (h 1 - h 3)) ^ 2) := by
  simp only [hessianAt, dotProduct, mulVec, Fin.sum_univ_four, of_apply, cons_val]
  norm_num
  ring

open MvPolynomial in
theorem expands : Expands p.valueAt p.gradientAt p.hessianAt := by
  intro x
  -- The strain changes by a linear and a quadratic term in the change of the offset.
  let dx : MvPolynomial (Fin 4) ℝ := X 0 - X 2
  let dy : MvPolynomial (Fin 4) ℝ := X 1 - X 3
  let cubic := C (2 * p.stiffness) *
    ((C (x 0 - x 2) * dx + C (x 1 - x 3) * dy) * (dx ^ 2 + dy ^ 2))
  let quartic := C (0.5 * p.stiffness) * (dx ^ 2 + dy ^ 2) ^ 2
  have hdx : dx.IsHomogeneous 1 := (isHomogeneous_X _ 0).sub (isHomogeneous_X _ 2)
  have hdy : dy.IsHomogeneous 1 := (isHomogeneous_X _ 1).sub (isHomogeneous_X _ 3)
  have hsq : (dx ^ 2 + dy ^ 2).IsHomogeneous 2 := (hdx.pow 2).add (hdy.pow 2)
  refine ⟨cubic + quartic, .of_degrees ?_ ?_, fun h => ?_⟩
  · exact (((hdx.C_mul _).add (hdy.C_mul _)).mul hsq).C_mul _
  · exact (hsq.pow 2).C_mul _
  · rw [gradientAt_dotProduct, hessianAt_form]
    simp only [cubic, quartic, dx, dy, map_add, map_sub, map_mul, map_pow, eval_C, eval_X,
      valueAt, strain, Pi.add_apply]
    norm_num
    ring

end Spring

/-! ## All problems -/

/-- Problems that report the Hessian as it is: all of them, a spring if it does not project. -/
inductive Problem.Exact : Problem ℝ → Prop
  | quadratic {n : ℕ} {A : RealMatrix n} {b : Fin n → ℝ} {q : Quadratic ℝ} :
      Quadratic.make (tabulate A) (List.ofFn b) = .ok q → Exact (.quadratic q)
  | rosenbrock (p : Rosenbrock ℝ) : Exact (.rosenbrock p)
  | saddle (p : Saddle ℝ) : Exact (.saddle p)
  | spring {p : Spring ℝ} : p.mode = .exact → Exact (.spring p)

theorem Problem.Exact.exists_expansion [Kernel ℝ] {p : Problem ℝ} (h : p.Exact) :
    ∃ (n : ℕ) (f : (Fin n → ℝ) → ℝ) (g : (Fin n → ℝ) → Fin n → ℝ)
      (H : (Fin n → ℝ) → RealMatrix n),
      p.answers.Computes f g H ∧ Expands f g H ∧ ∀ x, (H x).IsSymm := by
  cases h with
  | @quadratic n A b q hmake =>
      exact ⟨n, _, _, _, (Quadratic.represents_of_make hmake).computes,
        quadraticForm_expands (symmetricPart_isSymm A) b, fun _ => symmetricPart_isSymm A⟩
  | rosenbrock p => exact ⟨2, _, _, _, p.computes, p.expands, p.hessianAt_isSymm⟩
  | saddle p => exact ⟨2, _, _, _, p.computes, p.expands, fun _ => isSymm_diagonal _⟩
  | @spring p hmode => exact ⟨4, _, _, _, p.computes hmode, p.expands, p.hessianAt_isSymm⟩

/-- What a problem answers for its gradient and its Hessian are the derivatives of its value. A
quadratic may be made from a matrix that is not symmetric, and has its form all the same. -/
theorem Problem.Exact.exists_derivatives [Kernel ℝ] {p : Problem ℝ} (h : p.Exact) :
    (∃ (n : ℕ) (f : (Fin n → ℝ) → ℝ) (g : (Fin n → ℝ) → Fin n → ℝ)
      (H : (Fin n → ℝ) → RealMatrix n),
      p.answers.Computes f g H ∧ Expands f g H ∧
        ∀ x, IsGradientAt f (g x) x ∧ IsJacobianAt g (H x) x ∧ (H x).IsSymm) ∧
    ∀ (n : ℕ) (A : RealMatrix n) (b : Fin n → ℝ) (q : Quadratic ℝ), p = .quadratic q →
      Quadratic.make (tabulate A) (List.ofFn b) = .ok q →
        ∀ x : Fin n → ℝ, q.value (List.ofFn x) = .ok (1 / 2 * (x ⬝ᵥ A *ᵥ x) - b ⬝ᵥ x) := by
  constructor
  · obtain ⟨n, f, g, H, hcomputes, hexpands, hsymm⟩ := h.exists_expansion
    refine ⟨n, f, g, H, hcomputes, hexpands, ?_⟩
    intro x
    exact ⟨hexpands.isGradientAt hsymm x, hexpands.isJacobianAt hsymm x, hsymm x⟩
  · intro n A b q _ hmake x
    rw [(Quadratic.represents_of_make hmake).value_ofFn, quadraticForm_symmetricPart,
      quadraticForm]
    norm_num

/-- A matrix that is not symmetric. -/
theorem skewed_derivatives :
    ∃ (q : Quadratic ℝ) (f : (Fin 2 → ℝ) → ℝ) (g : (Fin 2 → ℝ) → Fin 2 → ℝ)
      (H : (Fin 2 → ℝ) → RealMatrix 2),
      Quadratic.make (tabulate !![1, 2; 0, 3]) [1, -1] = .ok q ∧
      (Problem.quadratic q).answers.Computes f g H ∧ Expands f g H ∧
      (∀ x, IsGradientAt f (g x) x ∧ IsJacobianAt g (H x) x ∧ (H x).IsSymm) ∧
      q.value [1, 1] = .ok 3 := by
  obtain ⟨q, hmake⟩ := Quadratic.exists_make !![1, 2; 0, 3] ![1, -1]
  obtain ⟨⟨n, f, g, H, hcomputes, hexpands, hderivatives⟩, hvalue⟩ :=
    Problem.Exact.exists_derivatives (.quadratic hmake)
  obtain rfl : n = 2 :=
    hcomputes.unknowns.symm.trans (Quadratic.represents_of_make hmake).unknowns_eq
  refine ⟨q, f, g, H, by simpa using hmake, hcomputes, hexpands, hderivatives, ?_⟩
  have hone := hvalue 2 _ _ q rfl hmake ![1, 1]
  norm_num [dotProduct, mulVec, Fin.sum_univ_two] at hone
  exact hone

end Downhill
