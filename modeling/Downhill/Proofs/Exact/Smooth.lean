import Mathlib
import Downhill.Proofs.Evaluation.Answers
import Downhill.Proofs.Exact.Tabulated

/-! # Smooth objectives

Answers over the reals are functions of the coordinates. Where the value around every point is a
quadratic and terms of higher degree, the coefficients of the quadratic are the derivatives, and
the second coefficient is the derivative of the first.
-/

open Matrix

namespace Downhill

variable {n : ℕ}

/-- There are `n` unknowns, and the answers are those of `f`, `g` and `H` at every point. -/
structure Answers.Computes (p : Answers ℝ) (f : (Fin n → ℝ) → ℝ) (g : (Fin n → ℝ) → Fin n → ℝ)
    (H : (Fin n → ℝ) → RealMatrix n) : Prop where
  unknowns : p.unknowns = n
  value : ∀ x, p.value (List.ofFn x) = .ok (f x)
  gradient : ∀ x, p.gradient (List.ofFn x) = .ok (List.ofFn (g x))
  hessian : ∀ x, p.hessian (List.ofFn x) = .ok (tabulate (H x))

/-! ## Derivatives

Points are plain tuples of coordinates, on which gradients are not defined for want of an inner
product; they are spelled out by the derivative.
-/

/-- The derivative of `f` at `x` is the inner product with `g`. -/
def IsGradientAt (f : (Fin n → ℝ) → ℝ) (g x : Fin n → ℝ) : Prop :=
  HasFDerivAt f (LinearMap.toContinuousLinearMap (dotProductBilin ℝ ℝ g)) x

/-- The derivative of `F` at `x` is the product with `S`. -/
def IsJacobianAt (F : (Fin n → ℝ) → Fin n → ℝ) (S : RealMatrix n) (x : Fin n → ℝ) : Prop :=
  HasFDerivAt F (LinearMap.toContinuousLinearMap S.mulVecLin) x

/-- A function is differentiable with a matrix as soon as its coordinates are with the rows. -/
theorem isJacobianAt_of_rows {F : (Fin n → ℝ) → Fin n → ℝ} {S : RealMatrix n} {x : Fin n → ℝ}
    (h : ∀ i, IsGradientAt (fun y => F y i) (S i) x) : IsJacobianAt F S x :=
  hasFDerivAt_pi'.mpr h

namespace IsGradientAt

variable {f f' : (Fin n → ℝ) → ℝ} {g g' x : Fin n → ℝ}

theorem of_apply {L : (Fin n → ℝ) →L[ℝ] ℝ} (h : HasFDerivAt f L x) (hL : ∀ v, L v = g ⬝ᵥ v) :
    IsGradientAt f g x :=
  h.congr_fderiv (ContinuousLinearMap.ext hL)

theorem unique (h : IsGradientAt f g x) (h' : IsGradientAt f g' x) : g = g' :=
  dotProduct_eq g g' fun v => DFunLike.congr_fun (HasFDerivAt.unique h h') v

theorem add (h : IsGradientAt f g x) (h' : IsGradientAt f' g' x) :
    IsGradientAt (fun y => f y + f' y) (g + g') x :=
  .of_apply (HasFDerivAt.fun_add h h') fun v => (add_dotProduct g g' v).symm

theorem mul (h : IsGradientAt f g x) (h' : IsGradientAt f' g' x) :
    IsGradientAt (fun y => f y * f' y) (f x • g' + f' x • g) x :=
  .of_apply (HasFDerivAt.fun_mul h h') fun v => by
    rw [add_dotProduct, smul_dotProduct, smul_dotProduct]
    rfl

theorem const (a : ℝ) (x : Fin n → ℝ) : IsGradientAt (fun _ => a) 0 x :=
  .of_apply (hasFDerivAt_const a x) fun v => (zero_dotProduct v).symm

theorem linear (g x : Fin n → ℝ) : IsGradientAt (fun y => g ⬝ᵥ y) g x :=
  (LinearMap.toContinuousLinearMap (dotProductBilin ℝ ℝ g)).hasFDerivAt

theorem coordinate (i : Fin n) (x : Fin n → ℝ) : IsGradientAt (fun y => y i) (Pi.single i 1) x :=
  .of_apply (hasFDerivAt_apply i x) fun v => (single_one_dotProduct i v).symm

theorem form {S : RealMatrix n} (hsymm : S.IsSymm) (x : Fin n → ℝ) :
    IsGradientAt (fun y => y ⬝ᵥ S *ᵥ y) ((2 : ℝ) • S *ᵥ x) x := by
  have hS : HasFDerivAt (fun y => S *ᵥ y) (LinearMap.toContinuousLinearMap S.mulVecLin) x :=
    (LinearMap.toContinuousLinearMap S.mulVecLin).hasFDerivAt
  have hterm (i : Fin n) :=
    HasFDerivAt.fun_mul (hasFDerivAt_apply (𝕜 := ℝ) i x) (hasFDerivAt_pi'.mp hS i)
  refine .of_apply (HasFDerivAt.fun_sum fun i _ => hterm i) fun v => ?_
  have hcross : x ⬝ᵥ S *ᵥ v = (S *ᵥ x) ⬝ᵥ v := by
    rw [dotProduct_mulVec, ← mulVec_transpose, hsymm]
  have hvalue : x ⬝ᵥ S *ᵥ v + (S *ᵥ x) ⬝ᵥ v = ((2 : ℝ) • S *ᵥ x) ⬝ᵥ v := by
    rw [hcross, smul_dotProduct, smul_eq_mul, two_mul]
  rw [← hvalue]
  simp [dotProduct, Finset.sum_add_distrib]

/-- A polynomial has its partial derivatives for its gradient. -/
theorem eval (q : MvPolynomial (Fin n) ℝ) (x : Fin n → ℝ) :
    IsGradientAt (fun y => MvPolynomial.eval y q)
      (fun i => MvPolynomial.eval x (MvPolynomial.pderiv i q)) x := by
  induction q using MvPolynomial.induction_on with
  | C a =>
      simp only [MvPolynomial.eval_C, MvPolynomial.pderiv_C, map_zero]
      exact .const a x
  | add p q hp hq =>
      simp only [map_add]
      exact hp.add hq
  | mul_X p i hp =>
      have hgradient : (fun j => MvPolynomial.eval x (MvPolynomial.pderiv j (p * .X i))) =
          MvPolynomial.eval x p • Pi.single i 1 +
            x i • fun j => MvPolynomial.eval x (MvPolynomial.pderiv j p) := by
        ext j
        by_cases hj : i = j
        · subst hj
          simp [mul_comm]
        · simp [MvPolynomial.pderiv_X_of_ne hj, Ne.symm hj, mul_comm]
      simp only [hgradient, map_mul, MvPolynomial.eval_X]
      exact hp.mul (.coordinate i x)

theorem shift {a h : Fin n → ℝ} :
    IsGradientAt (fun y => f (a + y)) g h ↔ IsGradientAt f g (a + h) :=
  hasFDerivAt_comp_add_left a

end IsGradientAt

/-! ## Expansions -/

/-- No term of `q` has a degree below `k`. -/
def StartsAt (k : ℕ) (q : MvPolynomial (Fin n) ℝ) : Prop :=
  ∀ m : Fin n →₀ ℕ, m.degree < k → q.coeff m = 0

namespace StartsAt

variable {k : ℕ} {q q' : MvPolynomial (Fin n) ℝ}

theorem zero : StartsAt k (0 : MvPolynomial (Fin n) ℝ) := fun m _ => MvPolynomial.coeff_zero m

theorem of_isHomogeneous {l : ℕ} (h : q.IsHomogeneous l) (hl : k ≤ l) : StartsAt k q :=
  fun _ hm => h.coeff_eq_zero (hm.trans_le hl).ne

theorem add (h : StartsAt k q) (h' : StartsAt k q') : StartsAt k (q + q') := by
  intro m hm
  rw [MvPolynomial.coeff_add, h m hm, h' m hm, add_zero]

theorem pderiv (h : StartsAt (k + 1) q) (i : Fin n) : StartsAt k (MvPolynomial.pderiv i q) := by
  intro m hm
  rw [MvPolynomial.coeff_pderiv, h _ (by simpa using hm), zero_mul]

theorem eval_zero (h : StartsAt (k + 1) q) : MvPolynomial.eval 0 q = 0 := by
  rw [MvPolynomial.eval_zero]
  exact h 0 (by simp)

end StartsAt

/-- Around every point, `f` is its value, the slope of `g`, half the form of `H`, and terms of the
third degree or more. -/
def Expands (f : (Fin n → ℝ) → ℝ) (g : (Fin n → ℝ) → Fin n → ℝ) (H : (Fin n → ℝ) → RealMatrix n) :
    Prop :=
  ∀ x, ∃ rest : MvPolynomial (Fin n) ℝ, StartsAt 3 rest ∧
    ∀ h, f (x + h) = f x + g x ⬝ᵥ h + 0.5 * (h ⬝ᵥ H x *ᵥ h) + MvPolynomial.eval h rest

namespace Expands

variable {f : (Fin n → ℝ) → ℝ} {g : (Fin n → ℝ) → Fin n → ℝ} {H : (Fin n → ℝ) → RealMatrix n}
  (hexpands : Expands f g H) (hsymm : ∀ x, (H x).IsSymm)

include hexpands hsymm

/-- The expansion around one point gives the gradient at all of them. -/
theorem exists_gradient_add (x : Fin n → ℝ) :
    ∃ rest : MvPolynomial (Fin n) ℝ, StartsAt 3 rest ∧ ∀ h, IsGradientAt f
      (g x + H x *ᵥ h + fun i => MvPolynomial.eval h (MvPolynomial.pderiv i rest)) (x + h) := by
  obtain ⟨rest, hrest, hvalue⟩ := hexpands x
  refine ⟨rest, hrest, fun h => ?_⟩
  have hhalf : (0.5 : ℝ) • (2 : ℝ) • H x *ᵥ h = H x *ᵥ h := by
    rw [smul_smul]
    norm_num
  have hsum := (((IsGradientAt.const (f x) h).add (.linear (g x) h)).add
    ((IsGradientAt.const 0.5 h).mul (.form (hsymm x) h))).add (.eval rest h)
  rw [zero_add, hhalf, smul_zero, add_zero] at hsum
  rw [← IsGradientAt.shift, funext hvalue]
  exact hsum

theorem isGradientAt (x : Fin n → ℝ) : IsGradientAt f (g x) x := by
  obtain ⟨rest, hrest, hgradient⟩ := hexpands.exists_gradient_add hsymm x
  have hzero := hgradient 0
  simp only [(hrest.pderiv _).eval_zero, mulVec_zero, add_zero] at hzero
  rwa [← Pi.zero_def, add_zero] at hzero

theorem isJacobianAt (x : Fin n → ℝ) : IsJacobianAt g (H x) x := by
  obtain ⟨rest, hrest, hgradient⟩ := hexpands.exists_gradient_add hsymm x
  have hg (h : Fin n → ℝ) : g (x + h) =
      g x + H x *ᵥ h + fun i => MvPolynomial.eval h (MvPolynomial.pderiv i rest) :=
    (hexpands.isGradientAt hsymm (x + h)).unique (hgradient h)
  refine isJacobianAt_of_rows fun i => ?_
  have hrow : IsGradientAt (fun h => g x i + H x i ⬝ᵥ h +
      MvPolynomial.eval h (MvPolynomial.pderiv i rest)) (H x i) 0 := by
    have hsum := ((IsGradientAt.const (g x i) 0).add (.linear (H x i) 0)).add
      (.eval (MvPolynomial.pderiv i rest) 0)
    simp only [((hrest.pderiv i).pderiv _).eval_zero, zero_add] at hsum
    rwa [← Pi.zero_def, add_zero] at hsum
  have hshift : IsGradientAt (fun h => g (x + h) i) (H x i) 0 := by
    simp only [hg, Pi.add_apply]
    exact hrow
  have hx := (IsGradientAt.shift (f := fun y => g y i)).mp hshift
  rwa [add_zero] at hx

end Expands

end Downhill
