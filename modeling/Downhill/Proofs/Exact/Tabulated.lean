import Mathlib
import Downhill.Linear.Matrix
import Downhill.Proofs.Exact.Real

/-! # Tables of real matrices

A square matrix of reals written row by row. Over the reals, what the solvers do to such tables is
matrix algebra.
-/

/-- Real matrices with `n` rows and columns. -/
abbrev RealMatrix (n : ℕ) := Matrix (Fin n) (Fin n) ℝ

open Matrix

namespace Downhill

variable {n : ℕ}

/-- The rows of a matrix, one after the other. -/
def tabulate (A : RealMatrix n) : Downhill.Matrix ℝ := ⟨List.ofFn fun i => List.ofFn (A i)⟩

/-! ## Shape -/

@[simp] theorem height_tabulate (A : RealMatrix n) : (tabulate A).height = n := by
  simp [tabulate, Matrix.height]

@[simp] theorem isSquare_tabulate (A : RealMatrix n) : (tabulate A).isSquare = true := by
  refine Matrix.isSquare_of_rows (height_tabulate A) fun row hrow => ?_
  obtain ⟨i, rfl⟩ := List.mem_ofFn.mp hrow
  simp

/-- Every square matrix is a table. -/
theorem exists_eq_tabulate {m : Downhill.Matrix ℝ} (hsquare : m.isSquare = true) :
    ∃ (n : ℕ) (A : RealMatrix n), m = tabulate A := by
  obtain ⟨rows⟩ := m
  have hrow : ∀ i : Fin rows.length, rows[i].length = rows.length := fun i =>
    Matrix.length_of_isSquare hsquare _ (List.getElem_mem _)
  refine ⟨_, fun i j => rows[i].get (j.cast (hrow i).symm), congrArg Matrix.mk ?_⟩
  refine List.ext_getElem (by simp) fun i hi _ => ?_
  refine List.ext_getElem (by simpa using hrow ⟨i, hi⟩) fun j _ _ => ?_
  simp

/-! ## Algebra -/

theorem columns_tabulate (A : RealMatrix n) :
    (tabulate A).columns = List.ofFn fun j => List.ofFn fun i => A i j := by
  have hwidth : (tabulate A).width = n := by
    rw [Matrix.width_of_isSquare (isSquare_tabulate A), height_tabulate]
  rw [Matrix.columns, hwidth]
  refine List.ext_getElem (by simp) fun j hj hj' => ?_
  have hj : j < n := by simpa using hj
  simp only [tabulate, List.getElem_map, List.getElem_range, List.getElem_ofFn]
  simp only [List.ofFn_eq_map, List.filterMap_map]
  -- Every row reaches column `j`, so none of them is dropped.
  rw [← List.filterMap_eq_map]
  refine List.filterMap_congr fun i _ => ?_
  simp [hj]

theorem transpose_tabulate (A : RealMatrix n) : (tabulate A).transpose = tabulate Aᵀ := by
  rw [Matrix.transpose, columns_tabulate]
  rfl

theorem foldl_mul_add_eq (s : ℝ) (ps : List (ℝ × ℝ)) :
    ps.foldl (fun y p => p.1 * p.2 + y) s = s + (ps.map fun p => p.1 * p.2).sum := by
  induction ps generalizing s with
  | nil => simp
  | cons p ps ih =>
      rw [List.foldl_cons, ih, List.map_cons, List.sum_cons]
      ring

theorem rowTimes_eq_inner (x y : Vec ℝ) : Matrix.rowTimes x y = Vec.inner x y := by
  rw [Vec.inner_eq_sum]
  cases x with
  | nil => norm_num [Matrix.rowTimes]
  | cons a x =>
      cases y with
      | nil => norm_num [Matrix.rowTimes]
      | cons v y =>
          rw [Matrix.rowTimes, foldl_mul_add_eq, List.zipWith_cons_cons, List.sum_cons]
          simp [List.zip, List.map_zipWith]

theorem mul_tabulate (A B : RealMatrix n) :
    (tabulate A).mul (tabulate B) = .ok (tabulate (A * B)) := by
  have hfits : (tabulate A).hasWidth (tabulate B).height = true := by
    simpa [Matrix.isSquare] using isSquare_tabulate A
  rw [Matrix.mul, if_pos hfits, columns_tabulate]
  simp only [tabulate, List.map_ofFn, Function.comp_def, rowTimes_eq_inner, Vec.inner_ofFn]
  rfl

theorem diagonal_ofFn (d : Fin n → ℝ) : Matrix.diagonal (List.ofFn d) = tabulate (diagonal d) := by
  refine congrArg Matrix.mk (List.ext_getElem (by simp) fun i hi hi' => ?_)
  refine List.ext_getElem (by simp) fun j hj hj' => ?_
  simp only [List.getElem_mapIdx, List.getElem_set, List.getElem_replicate, List.getElem_ofFn,
    diagonal_apply, Fin.mk.injEq]
  norm_num

theorem symmetrise_tabulate (A : RealMatrix n) :
    (tabulate A).symmetrise = tabulate fun i j => (A i j + A j i) * 0.5 := by
  rw [Matrix.symmetrise, transpose_tabulate]
  simp only [tabulate, Vec.zipWith_ofFn]
  rfl

theorem shift_tabulate (A : RealMatrix n) (delta : ℝ) :
    (tabulate A).shift delta = tabulate (A + delta • 1) := by
  refine congrArg Matrix.mk (List.ext_getElem (by simp [tabulate]) fun i hi hi' => ?_)
  refine List.ext_getElem (by simp [tabulate]) fun j hj hj' => ?_
  simp only [tabulate, List.getElem_mapIdx, List.getElem_modify, List.getElem_ofFn,
    Matrix.add_apply, Matrix.smul_apply, one_apply, Fin.mk.injEq, smul_eq_mul, mul_ite, mul_one,
    mul_zero]
  split <;> simp

/-- A symmetric matrix is its own mean with its transpose. -/
theorem symmetrise_tabulate_of_isSymm {A : RealMatrix n} (h : A.IsSymm) :
    (tabulate A).symmetrise = tabulate A := by
  rw [symmetrise_tabulate]
  congr
  ext i j
  rw [h.apply j i]
  norm_num
  ring

end Downhill
