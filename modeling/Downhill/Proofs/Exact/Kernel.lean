import Mathlib
import Downhill.Linear.Projection
import Downhill.Proofs.Exact.Tabulated

/-! # Exact answers to the dense problems

What a factorisation and a decomposition promise when nothing is rounded. Both read the lower
triangle of a matrix only. There is a kernel that keeps the promise.
-/

open Matrix

namespace Downhill

variable {n : ℕ}

/-- The symmetric matrix with the lower triangle of `A`. -/
def fromLower (A : RealMatrix n) : RealMatrix n := fun i j => A (max i j) (min i j)

theorem fromLower_isSymm (A : RealMatrix n) : (fromLower A).IsSymm := by
  ext i j
  simp [fromLower, max_comm, min_comm]

theorem fromLower_of_isSymm {A : RealMatrix n} (h : A.IsSymm) : fromLower A = A := by
  ext i j
  rcases le_total i j with hij | hij
  · simp [fromLower, hij, h.apply i j]
  · simp [fromLower, hij]

/-! ## The promise -/

/-- Systems are solved exactly if their matrix is positive definite, and refused otherwise; spectra
are exact. -/
class ExactKernel [Kernel ℝ] : Prop where
  factorise_isSome {n : ℕ} (A : RealMatrix n) :
    (Kernel.factorise (tabulate A)).isSome = true ↔ (fromLower A).PosDef
  factorise_solves {n : ℕ} (A : RealMatrix n) (solve : Vec ℝ → Vec ℝ) :
    Kernel.factorise (tabulate A) = some solve → ∀ b : Fin n → ℝ,
      ∃ x : Fin n → ℝ, solve (List.ofFn b) = List.ofFn x ∧ fromLower A *ᵥ x = b
  spectrum_diagonalises {n : ℕ} (A : RealMatrix n) : n ≠ 0 →
    ∃ (values : Fin n → ℝ) (vectors : RealMatrix n),
      Kernel.spectrum (tabulate A) = .ok ⟨List.ofFn values, tabulate vectors⟩ ∧
        vectors * vectorsᵀ = 1 ∧ vectors * diagonal values * vectorsᵀ = fromLower A

/-- The same promise for systems alone. -/
class ExactFactorisation [Kernel ℝ] : Prop where
  factorise_isSome {n : ℕ} (A : RealMatrix n) :
    (Kernel.factorise (tabulate A)).isSome = true ↔ (fromLower A).PosDef
  factorise_solves {n : ℕ} (A : RealMatrix n) (solve : Vec ℝ → Vec ℝ) :
    Kernel.factorise (tabulate A) = some solve → ∀ b : Fin n → ℝ,
      ∃ x : Fin n → ℝ, solve (List.ofFn b) = List.ofFn x ∧ fromLower A *ᵥ x = b

instance [Kernel ℝ] [ExactKernel] : ExactFactorisation where
  factorise_isSome := ExactKernel.factorise_isSome
  factorise_solves := ExactKernel.factorise_solves

section Promise

variable [Kernel ℝ]

theorem solver?_tabulate (A : RealMatrix n) :
    (tabulate A).solver? = .ok ((Kernel.factorise (tabulate A)).map fun solve b =>
      if b.length = n then .ok (solve b) else .error .sizes) := by
  simp [Matrix.solver?]

section Systems

variable [ExactFactorisation]

/-- A solver for a table solves the system of the symmetric matrix with its lower triangle, which is
positive definite. -/
theorem posDef_system {A : RealMatrix n} {solve : Vec ℝ → Except Fault (Vec ℝ)} {b : Fin n → ℝ}
    {d : Vec ℝ} (hsolver : (tabulate A).solver? = .ok (some solve))
    (hd : solve (List.ofFn b) = .ok d) :
    (fromLower A).PosDef ∧ ∃ x : Fin n → ℝ, d = List.ofFn x ∧ fromLower A *ᵥ x = b := by
  rw [solver?_tabulate, Except.ok.injEq, Option.map_eq_some_iff] at hsolver
  obtain ⟨exactly, hfactor, rfl⟩ := hsolver
  dsimp only at hd
  rw [if_pos (List.length_ofFn)] at hd
  cases hd
  exact ⟨(ExactFactorisation.factorise_isSome A).mp (by rw [hfactor]; rfl),
    ExactFactorisation.factorise_solves A exactly hfactor b⟩

/-- A solver that was not refused solves a positive definite system. -/
theorem exists_posDef_system {m : Downhill.Matrix ℝ} {solve : Vec ℝ → Except Fault (Vec ℝ)}
    {b d : Vec ℝ} (hsolver : m.solver? = .ok (some solve)) (hd : solve b = .ok d) :
    ∃ (n : ℕ) (S : RealMatrix n) (r x : Fin n → ℝ), b = List.ofFn r ∧ d = List.ofFn x ∧
      S.PosDef ∧ S *ᵥ x = r := by
  obtain ⟨n, A, rfl⟩ := exists_eq_tabulate (Matrix.isSquare_of_solver? hsolver)
  have hlength : b.length = n := by
    rw [solver?_tabulate, Except.ok.injEq, Option.map_eq_some_iff] at hsolver
    obtain ⟨exactly, -, rfl⟩ := hsolver
    dsimp only at hd
    split at hd
    · assumption
    · contradiction
  obtain ⟨r, rfl⟩ := Vec.exists_eq_ofFn b hlength
  obtain ⟨hposDef, x, hx, hsystem⟩ := posDef_system hsolver hd
  exact ⟨n, fromLower A, r, x, rfl, hx, hposDef, hsystem⟩

/-- A positive definite matrix is never refused, and its solver is exact. -/
theorem exists_exact_solver {A : RealMatrix n} (h : A.PosDef) :
    ∃ solve, (tabulate A).solver? = .ok (some solve) ∧
      ∀ b : Fin n → ℝ, ∃ x : Fin n → ℝ, solve (List.ofFn b) = .ok (List.ofFn x) ∧ A *ᵥ x = b := by
  -- Only the lower triangle is read; for a symmetric matrix it tells everything.
  have hlower : fromLower A = A := fromLower_of_isSymm (by simpa using h.isHermitian)
  have hsome := (ExactFactorisation.factorise_isSome A).mpr (hlower.symm ▸ h)
  obtain ⟨solve, hsolve⟩ := Option.isSome_iff_exists.mp hsome
  refine ⟨_, by rw [solver?_tabulate, hsolve, Option.map_some], fun b => ?_⟩
  obtain ⟨x, hx, hsystem⟩ := ExactFactorisation.factorise_solves A solve hsolve b
  rw [hlower] at hsystem
  refine ⟨x, ?_, hsystem⟩
  rw [if_pos (List.length_ofFn), hx]

/-- A symmetric matrix that is not positive definite is refused. -/
theorem solver?_of_not_posDef {A : RealMatrix n} (hsymm : A.IsSymm) (h : ¬ A.PosDef) :
    (tabulate A).solver? = .ok none := by
  have hfactor : Kernel.factorise (tabulate A) = none := by
    rw [← Option.not_isSome_iff_eq_none, ExactFactorisation.factorise_isSome,
      fromLower_of_isSymm hsymm]
    exact h
  rw [solver?_tabulate, hfactor, Option.map_none]

theorem exists_solver_of_posDef {A : RealMatrix n} (h : A.PosDef) :
    ∃ solve, (tabulate A).solver? = .ok (some solve) ∧
      ∀ b : Vec ℝ, b.length = n → ∃ x, solve b = .ok x := by
  obtain ⟨solve, hsolver, hsolve⟩ := exists_exact_solver h
  refine ⟨solve, hsolver, fun b hb => ?_⟩
  obtain ⟨r, rfl⟩ := Vec.exists_eq_ofFn b hb
  obtain ⟨x, hx, -⟩ := hsolve r
  exact ⟨_, hx⟩

end Systems

/-! ## Projected spectra -/

variable [ExactKernel]

omit [Kernel ℝ] [ExactKernel] in
theorem isSymm_conjugate (vectors : RealMatrix n) (values : Fin n → ℝ) :
    (vectors * diagonal values * vectorsᵀ).IsSymm := by
  rw [IsSymm, transpose_mul, transpose_mul, transpose_transpose, diagonal_transpose, mul_assoc]

omit [Kernel ℝ] [ExactKernel] in
theorem posDef_conjugate {vectors : RealMatrix n} {values : Fin n → ℝ}
    (hunit : vectors * vectorsᵀ = 1) (hpos : ∀ i, 0 < values i) :
    (vectors * diagonal values * vectorsᵀ).PosDef := by
  have hinjective : Function.Injective vectors.vecMul := by
    rw [vecMul_injective_iff_isUnit]
    exact IsUnit.of_mul_eq_one _ hunit
  rw [← conjTranspose_eq_transpose_of_trivial]
  exact (PosDef.diagonal hpos).mul_mul_conjTranspose_same hinjective

omit [Kernel ℝ] [ExactKernel] in
/-- A function of the eigenvalues keeps every eigenvector. -/
theorem conjugate_mulVec {vectors : RealMatrix n} {values e : Fin n → ℝ} {μ : ℝ}
    (hunit : vectors * vectorsᵀ = 1) (h : (vectors * diagonal values * vectorsᵀ) *ᵥ e = μ • e)
    (φ : ℝ → ℝ) :
    (vectors * diagonal (fun i => φ (values i)) * vectorsᵀ) *ᵥ e = φ μ • e := by
  have hrotated : diagonal values *ᵥ (vectorsᵀ *ᵥ e) = μ • (vectorsᵀ *ᵥ e) := by
    rw [← mulVec_smul, ← h, mulVec_mulVec, mulVec_mulVec, ← mul_assoc, ← mul_assoc,
      mul_eq_one_comm.mp hunit, one_mul]
  have hφ : diagonal (fun i => φ (values i)) *ᵥ (vectorsᵀ *ᵥ e) = φ μ • (vectorsᵀ *ᵥ e) := by
    ext i
    have hentry : values i * (vectorsᵀ *ᵥ e) i = μ * (vectorsᵀ *ᵥ e) i := by
      simpa [mulVec_diagonal] using congrFun hrotated i
    rw [mulVec_diagonal, Pi.smul_apply, smul_eq_mul]
    -- Where the vector has a component, the eigenvalue is its own.
    by_cases hzero : (vectorsᵀ *ᵥ e) i = 0
    · rw [hzero, mul_zero, mul_zero]
    · rw [mul_right_cancel₀ hzero hentry]
  rw [← mulVec_mulVec, ← mulVec_mulVec, hφ, mulVec_smul, mulVec_mulVec, hunit, one_mulVec]

omit [Kernel ℝ] [ExactKernel] in
/-- A function of the eigenvalues of a diagonal matrix is taken entry by entry. -/
theorem conjugate_diagonal {vectors : RealMatrix n} {values d : Fin n → ℝ}
    (hunit : vectors * vectorsᵀ = 1) (h : vectors * diagonal values * vectorsᵀ = diagonal d)
    (φ : ℝ → ℝ) :
    vectors * diagonal (fun i => φ (values i)) * vectorsᵀ = diagonal fun i => φ (d i) := by
  have haxis (d : Fin n → ℝ) (j : Fin n) :
      diagonal d *ᵥ Pi.single j 1 = d j • Pi.single j 1 := by
    rw [diagonal_mulVec_single, mul_one, ← Pi.single_smul, smul_eq_mul, mul_one]
  refine Matrix.ext_of_mulVec_single fun j => ?_
  rw [haxis, conjugate_mulVec hunit (h ▸ haxis d j) φ]

omit [Kernel ℝ] [ExactKernel] in
theorem rebuild_tabulate (values : Fin n → ℝ) (vectors : RealMatrix n) :
    Projection.rebuild (List.ofFn values) (tabulate vectors) =
      .ok (tabulate (vectors * diagonal values * vectorsᵀ)) := by
  simp only [Projection.rebuild, diagonal_ofFn, transpose_tabulate, mul_tabulate, bind, Except.bind,
    symmetrise_tabulate_of_isSymm (isSymm_conjugate vectors values), pure, Except.pure]

omit [ExactKernel] in
theorem spectrum_of_tabulate (A : RealMatrix n) (hn : n ≠ 0) :
    (tabulate A).spectrum = Kernel.spectrum (tabulate A) := by
  rw [Matrix.spectrum, if_pos (by simpa using hn)]

theorem diagonal_form {A : RealMatrix n} {spectrum : Spectrum ℝ}
    (h : (tabulate A).spectrum = .ok spectrum) :
    ∃ (vectors : RealMatrix n) (values : Fin n → ℝ),
      spectrum = ⟨List.ofFn values, tabulate vectors⟩ ∧ vectors * vectorsᵀ = 1 ∧
        vectors * diagonal values * vectorsᵀ = fromLower A := by
  have hn : n ≠ 0 := by
    rintro rfl
    simp [Matrix.spectrum] at h
  obtain ⟨values, vectors, hkernel, hunit, hdiagonal⟩ := ExactKernel.spectrum_diagonalises A hn
  rw [spectrum_of_tabulate A hn, hkernel] at h
  exact ⟨vectors, values, (Except.ok.inj h).symm, hunit, hdiagonal⟩

omit [ExactKernel] in
/-- The projection that is put together from a spectrum. -/
theorem Projection.ofMatrix_of_spectrum {A : RealMatrix n} {floor : ℝ} {values : Fin n → ℝ}
    {vectors : RealMatrix n}
    (hspectrum : (tabulate A).spectrum = .ok ⟨List.ofFn values, tabulate vectors⟩) :
    Projection.ofMatrix (tabulate A) floor = .ok {
      matrix := tabulate (vectors * diagonal (fun i => max (values i) floor) * vectorsᵀ)
      minEigenvalue := smallest (List.ofFn values)
      clamped := (List.ofFn values).countP fun value => decide (value < floor) } := by
  have hraised : (List.ofFn values).map (fun value => if value < floor then floor else value) =
      List.ofFn fun i => max (values i) floor := by
    simp only [List.map_ofFn, Function.comp_def, max_def_lt]
  simp only [Projection.ofMatrix, hspectrum, hraised, rebuild_tabulate, bind, Except.bind, pure,
    Except.pure]

theorem Projection.exists_ofMatrix {m : Downhill.Matrix ℝ} (hsquare : m.isSquare = true)
    (hheight : m.height ≠ 0) (floor : ℝ) : ∃ p, Projection.ofMatrix m floor = .ok p := by
  obtain ⟨n, A, rfl⟩ := exists_eq_tabulate hsquare
  have hn : n ≠ 0 := by simpa using hheight
  obtain ⟨values, vectors, hkernel, -⟩ := ExactKernel.spectrum_diagonalises A hn
  have hspectrum := (spectrum_of_tabulate A hn).trans hkernel
  exact ⟨_, ofMatrix_of_spectrum hspectrum⟩

/-- A projection is put together from a diagonal form of its matrix. -/
theorem Projection.ofMatrix_form {A : RealMatrix n} {floor : ℝ} {p : Projection ℝ}
    (hp : Projection.ofMatrix (tabulate A) floor = .ok p) :
    ∃ (vectors : RealMatrix n) (values : Fin n → ℝ), vectors * vectorsᵀ = 1 ∧
      vectors * diagonal values * vectorsᵀ = fromLower A ∧
      p = {
        matrix := tabulate (vectors * diagonal (fun i => max (values i) floor) * vectorsᵀ)
        minEigenvalue := smallest (List.ofFn values)
        clamped := (List.ofFn values).countP fun value => decide (value < floor) } := by
  obtain ⟨spectrum, hspectrum⟩ := exists_spectrum hp
  obtain ⟨vectors, values, rfl, hunit, hdiagonal⟩ := diagonal_form hspectrum
  rw [ofMatrix_of_spectrum hspectrum] at hp
  exact ⟨vectors, values, hunit, hdiagonal, (Except.ok.inj hp).symm⟩

/-- A projection has the eigenvalues of its matrix, raised to the floor. -/
theorem Projection.raised_form {A : RealMatrix n} {floor : ℝ} {p : Projection ℝ}
    (hp : Projection.ofMatrix (tabulate A) floor = .ok p) :
    ∃ (vectors : RealMatrix n) (values : Fin n → ℝ), vectors * vectorsᵀ = 1 ∧
      vectors * diagonal values * vectorsᵀ = fromLower A ∧
      p.matrix = tabulate (vectors * diagonal (fun i => max (values i) floor) * vectorsᵀ) := by
  obtain ⟨vectors, values, hunit, hdiagonal, rfl⟩ := ofMatrix_form hp
  exact ⟨vectors, values, hunit, hdiagonal, rfl⟩

omit [ExactKernel] in
theorem Projection.isSquare_of_ofMatrix {m : Downhill.Matrix ℝ} {floor : ℝ} {p : Projection ℝ}
    (hp : Projection.ofMatrix m floor = .ok p) : m.isSquare = true := by
  by_contra hshape
  obtain ⟨spectrum, hspectrum⟩ := exists_spectrum hp
  simp [Matrix.spectrum, hshape] at hspectrum

/-- A matrix that was projected onto a positive floor has a solver. -/
theorem Projection.exists_solver {m : Downhill.Matrix ℝ} {floor : ℝ} {p : Projection ℝ}
    (hfloor : 0 < floor) (hp : Projection.ofMatrix m floor = .ok p) :
    ∃ solve, p.matrix.solver? = .ok (some solve) ∧
      ∀ b : Vec ℝ, b.length = m.height → ∃ x, solve b = .ok x := by
  obtain ⟨n, A, rfl⟩ := exists_eq_tabulate (isSquare_of_ofMatrix hp)
  obtain ⟨vectors, values, hunit, -, hmatrix⟩ := raised_form hp
  rw [hmatrix, height_tabulate]
  exact exists_solver_of_posDef (posDef_conjugate hunit fun i => lt_max_of_lt_right hfloor)

end Promise

/-! ## A kernel that keeps it -/

/-- Row by row, what a list of lists holds; nought where it holds nothing. -/
def entries (n : ℕ) (m : Downhill.Matrix ℝ) : RealMatrix n :=
  fun i j => (m.rows.getD i []).getD j 0

theorem entries_tabulate (A : RealMatrix n) : entries n (tabulate A) = A := by
  ext i j
  simp [entries, tabulate]

open Classical in
/-- The inverse, if the matrix is positive definite. -/
noncomputable def invert (S : RealMatrix n) : Option (Vec ℝ → Vec ℝ) :=
  if S.PosDef then some fun b => List.ofFn (S⁻¹ *ᵥ fun i : Fin n => b.getD i 0) else none

/-- The diagonal form of a symmetric matrix. -/
noncomputable def diagonalise (A : RealMatrix n) : Spectrum ℝ :=
  have h : (fromLower A).IsHermitian := by simpa using fromLower_isSymm A
  ⟨List.ofFn h.eigenvalues, tabulate (h.eigenvectorUnitary : RealMatrix n)⟩

noncomputable instance : Kernel ℝ where
  factorise m := invert (fromLower (entries m.height m))
  spectrum m := .ok (diagonalise (entries m.height m))

/-- The height of a table is the size of its matrix, so reading the table gives the matrix back. -/
theorem entries_height {β : Type} (A : RealMatrix n) (f : (k : ℕ) → RealMatrix k → β) :
    f (tabulate A).height (entries _ (tabulate A)) = f n A := by
  have h : ∀ k, k = n → f k (entries k (tabulate A)) = f n A := by
    rintro k rfl
    rw [entries_tabulate]
  exact h _ (height_tabulate A)

theorem factorise_tabulate (A : RealMatrix n) :
    Kernel.factorise (tabulate A) = invert (fromLower A) :=
  entries_height A fun _ B => invert (fromLower B)

theorem spectrum_tabulate (A : RealMatrix n) :
    Kernel.spectrum (tabulate A) = .ok (diagonalise A) :=
  entries_height A fun _ B => Except.ok (diagonalise B)

instance : ExactKernel where
  factorise_isSome A := by
    rw [factorise_tabulate, invert]
    split <;> simp_all
  factorise_solves {n} A solve hsolve b := by
    rw [factorise_tabulate, invert] at hsolve
    split at hsolve
    · rename_i hposDef
      cases hsolve
      have hb : (fun i : Fin n => (List.ofFn b).getD i 0) = b := by
        ext i
        simp
      have hunit : IsUnit (fromLower A).det := (isUnit_iff_isUnit_det _).mp hposDef.isUnit
      refine ⟨_, rfl, ?_⟩
      rw [hb, mulVec_mulVec, mul_nonsing_inv _ hunit, one_mulVec]
    · contradiction
  spectrum_diagonalises A hn := by
    have h : (fromLower A).IsHermitian := by simpa using fromLower_isSymm A
    refine ⟨h.eigenvalues, h.eigenvectorUnitary, spectrum_tabulate A, ?_, ?_⟩
    · have hmem := mem_unitaryGroup_iff.mp h.eigenvectorUnitary.prop
      rwa [star_eq_conjTranspose, conjTranspose_eq_transpose_of_trivial] at hmem
    · have hspectral := h.spectral_theorem
      rw [Unitary.conjStarAlgAut_apply] at hspectral
      exact hspectral.symm

end Downhill
