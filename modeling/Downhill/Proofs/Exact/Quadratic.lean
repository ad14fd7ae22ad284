import Mathlib
import Downhill.Problem.Quadratic
import Downhill.Proofs.Exact.Kernel

/-! # Quadratics in exact arithmetic

A quadratic that was made from a table and a vector has the symmetric part of the table for its
matrix. Its value, its gradient and its minimiser are those of the quadratic form, and the value at
a displaced point is given by the first two derivatives.
-/

open Matrix

namespace Downhill

variable {n : ℕ}

/-! ## Operations on tables and vectors -/

theorem hasWidth_tabulate (A : RealMatrix n) (k : ℕ) : (tabulate A).hasWidth k = true ↔ k = n := by
  cases n with
  | zero => simp [tabulate, Matrix.hasWidth]
  | succ n =>
      simp only [tabulate, Matrix.hasWidth, List.ofFn_succ, List.all_cons, List.length_cons,
        List.length_ofFn]
      constructor
      · intro h
        simp only [Bool.and_eq_true, beq_iff_eq] at h
        exact h.1.symm
      · rintro rfl
        simp [List.all_eq_true, List.mem_ofFn]

theorem mulVec_tabulate (A : RealMatrix n) (x : Fin n → ℝ) :
    (tabulate A).mulVec (List.ofFn x) = .ok (List.ofFn (A *ᵥ x)) := by
  have hfits : (tabulate A).hasWidth (List.ofFn x).length = true :=
    (hasWidth_tabulate A _).mpr (List.length_ofFn)
  rw [Matrix.mulVec, if_pos hfits]
  simp only [tabulate, List.map_ofFn, Function.comp_def, rowTimes_eq_inner, Vec.inner_ofFn]
  rfl

theorem length_of_mulVec {A : RealMatrix n} {x product : Vec ℝ}
    (h : (tabulate A).mulVec x = .ok product) : x.length = n := by
  unfold Matrix.mulVec at h
  split at h
  · rename_i hfits
    exact (hasWidth_tabulate A _).mp hfits
  · contradiction

namespace Vec

theorem sub_ofFn (x y : Fin n → ℝ) : sub (List.ofFn x) (List.ofFn y) = .ok (List.ofFn (x - y)) := by
  rw [sub, zip, if_pos (by simp), zipWith_ofFn]
  rfl

theorem move_ofFn (x d : Fin n → ℝ) (t : ℝ) :
    move (List.ofFn x) t (List.ofFn d) = .ok (List.ofFn (x + t • d)) := by
  rw [move, zip, if_pos (by simp), zipWith_ofFn]
  congr 2
  ext i
  simp [add_comm]

end Vec

/-! ## Quadratic forms -/

/-- The mean of a matrix and its transpose. -/
noncomputable def symmetricPart (A : RealMatrix n) : RealMatrix n := (0.5 : ℝ) • (A + Aᵀ)

theorem symmetrise_eq_symmetricPart (A : RealMatrix n) :
    (tabulate A).symmetrise = tabulate (symmetricPart A) := by
  rw [symmetrise_tabulate]
  congr
  ext i j
  simp only [symmetricPart, Matrix.smul_apply, Matrix.add_apply, transpose_apply, smul_eq_mul]
  norm_num
  ring

theorem symmetricPart_isSymm (A : RealMatrix n) : (symmetricPart A).IsSymm := by
  rw [IsSymm, symmetricPart, transpose_smul, transpose_add, transpose_transpose, add_comm]

/-- The symmetric part of a matrix that is not symmetric. -/
theorem symmetricPart_skewed : symmetricPart !![1, 2; -2, 1] = (1 : RealMatrix 2) := by
  ext i j
  fin_cases i <;> fin_cases j <;> norm_num [symmetricPart]

theorem dotProduct_symmetricPart (A : RealMatrix n) (x : Fin n → ℝ) :
    x ⬝ᵥ symmetricPart A *ᵥ x = x ⬝ᵥ A *ᵥ x := by
  have htranspose : x ⬝ᵥ Aᵀ *ᵥ x = x ⬝ᵥ A *ᵥ x := by
    rw [mulVec_transpose, dotProduct_comm, ← dotProduct_mulVec]
  rw [symmetricPart, smul_mulVec, add_mulVec, dotProduct_smul, dotProduct_add, htranspose]
  norm_num
  ring

/-- Half a quadratic form minus a linear one. -/
noncomputable def quadraticForm (S : RealMatrix n) (b x : Fin n → ℝ) : ℝ :=
  0.5 * (x ⬝ᵥ S *ᵥ x) - b ⬝ᵥ x

/-- A quadratic form does not tell a matrix from its symmetric part. -/
theorem quadraticForm_symmetricPart (A : RealMatrix n) (b x : Fin n → ℝ) :
    quadraticForm (symmetricPart A) b x = quadraticForm A b x := by
  rw [quadraticForm, dotProduct_symmetricPart, quadraticForm]

/-- The value at a displaced point, by the first two derivatives. -/
theorem quadraticForm_add {S : RealMatrix n} (hsymm : S.IsSymm) (b x d : Fin n → ℝ) :
    quadraticForm S b (x + d) =
      quadraticForm S b x + (S *ᵥ x - b) ⬝ᵥ d + 1 / 2 * (d ⬝ᵥ S *ᵥ d) := by
  have hcross : x ⬝ᵥ S *ᵥ d = d ⬝ᵥ S *ᵥ x := by
    rw [dotProduct_mulVec, ← mulVec_transpose, hsymm, dotProduct_comm]
  simp only [quadraticForm, mulVec_add, add_dotProduct, dotProduct_add, sub_dotProduct, hcross,
    dotProduct_comm (S *ᵥ x) d]
  ring

/-! ## Quadratics -/

namespace Quadratic

theorem of_make {matrix : Downhill.Matrix ℝ} {linear : Vec ℝ} {q : Quadratic ℝ}
    (h : make matrix linear = .ok q) : q.matrix = matrix.symmetrise ∧ q.linear = linear := by
  unfold make at h
  split at h
  · split at h
    · cases h
      exact ⟨rfl, rfl⟩
    · contradiction
  · contradiction

/-- A table and a vector of one size make a quadratic. -/
theorem exists_make (A : RealMatrix n) (b : Fin n → ℝ) :
    ∃ q, make (tabulate A) (List.ofFn b) = .ok q := by
  rw [make, dif_pos (isSquare_tabulate A), dif_pos (by simp)]
  exact ⟨_, rfl⟩

/-- The matrix of `q` is `S` and its linear term is `b`. -/
structure Represents (q : Quadratic ℝ) (S : RealMatrix n) (b : Fin n → ℝ) : Prop where
  matrix_eq : q.matrix = tabulate S
  linear_eq : q.linear = List.ofFn b

theorem represents_of_make {A : RealMatrix n} {b : Fin n → ℝ} {q : Quadratic ℝ}
    (h : make (tabulate A) (List.ofFn b) = .ok q) : q.Represents (symmetricPart A) b := by
  obtain ⟨hmatrix, hlinear⟩ := of_make h
  exact ⟨hmatrix.trans (symmetrise_eq_symmetricPart A), hlinear⟩

namespace Represents

variable {q : Quadratic ℝ} {S : RealMatrix n} {b : Fin n → ℝ} (h : q.Represents S b)

include h

theorem unknowns_eq : q.unknowns = n := by
  rw [unknowns, h.linear_eq, List.length_ofFn]

theorem value_ofFn (x : Fin n → ℝ) : q.value (List.ofFn x) = .ok (quadraticForm S b x) := by
  rw [value, h.matrix_eq, h.linear_eq, mulVec_tabulate]
  change (Vec.dot _ _ >>= _) = _
  rw [Vec.dot_ofFn]
  change (Vec.dot _ _ >>= _) = _
  rw [Vec.dot_ofFn]
  refine congrArg Except.ok ?_
  norm_num [quadraticForm]

theorem gradient_ofFn (x : Fin n → ℝ) :
    q.gradient (List.ofFn x) = .ok (List.ofFn (S *ᵥ x - b)) := by
  rw [gradient, h.matrix_eq, h.linear_eq, mulVec_tabulate]
  exact Vec.sub_ofFn _ _

/-- A point with a gradient has as many coordinates as there are unknowns. -/
theorem exists_of_gradient {x g : Vec ℝ} (hgradient : q.gradient x = .ok g) :
    ∃ v : Fin n → ℝ, x = List.ofFn v ∧ g = List.ofFn (S *ᵥ v - b) := by
  have hlength : x.length = n := by
    rw [gradient, h.matrix_eq] at hgradient
    cases hproduct : (tabulate S).mulVec x with
    | error fault => simp [hproduct, bind, Except.bind] at hgradient
    | ok product => exact length_of_mulVec hproduct
  obtain ⟨v, rfl⟩ := Vec.exists_eq_ofFn x hlength
  rw [h.gradient_ofFn] at hgradient
  exact ⟨v, rfl, (Except.ok.inj hgradient).symm⟩

/-! ### The minimiser -/

variable [Kernel ℝ] [ExactFactorisation]

theorem exists_minimiser (hposDef : S.PosDef) :
    ∃ x : Fin n → ℝ, q.minimiser = .ok (some (List.ofFn x)) ∧ S *ᵥ x = b := by
  obtain ⟨solve, hsolver, hsolve⟩ := exists_exact_solver hposDef
  obtain ⟨x, hx, hsystem⟩ := hsolve b
  refine ⟨x, ?_, hsystem⟩
  rw [minimiser, h.matrix_eq, hsolver, h.linear_eq]
  change some <$> solve (List.ofFn b) = _
  rw [hx]
  rfl

/-- The minimiser is the only point where the gradient vanishes. -/
theorem minimiser_eq (hposDef : S.PosDef) {x : Fin n → ℝ} (hx : S *ᵥ x = b) :
    q.minimiser = .ok (some (List.ofFn x)) := by
  obtain ⟨y, hy, hsystem⟩ := h.exists_minimiser hposDef
  have hinjective := mulVec_injective_iff_isUnit.mpr hposDef.isUnit
  rw [hy, hinjective (hsystem.trans hx.symm)]

end Represents

end Quadratic

end Downhill
