import Mathlib
import Downhill.Proofs.Evaluation.Fitting
import Downhill.Proofs.Exact.Derivatives
import Downhill.Proofs.Exact.Region

/-! # Projected spectra

In exact arithmetic, raising the eigenvalues of a symmetric matrix to a floor gives a matrix that
lies above both the floor and the matrix itself, and nowhere further above it than the smallest
eigenvalue had to be lifted. A second projection changes nothing. Over a positive floor the result
is positive definite, so a projected spring never refuses plain Newton a direction.
-/

open Matrix

namespace Downhill

variable {n : ℕ}

/-! ## Diagonal forms -/

section Conjugates

variable {vectors : RealMatrix n} {values values' : Fin n → ℝ}

theorem conjugate_form (vectors : RealMatrix n) (values x : Fin n → ℝ) :
    x ⬝ᵥ (vectors * diagonal values * vectorsᵀ) *ᵥ x =
      ∑ i, values i * (vectorsᵀ *ᵥ x) i ^ 2 := by
  rw [← mulVec_mulVec, ← mulVec_mulVec, dotProduct_mulVec, ← mulVec_transpose, dotProduct]
  refine Finset.sum_congr rfl fun i _ => ?_
  rw [mulVec_diagonal]
  ring

theorem dotProduct_self_rotated (hunit : vectors * vectorsᵀ = 1) (x : Fin n → ℝ) :
    x ⬝ᵥ x = ∑ i, (vectorsᵀ *ᵥ x) i ^ 2 := by
  have hform := conjugate_form vectors 1 x
  rw [diagonal_one', mul_one, hunit, one_mulVec] at hform
  simpa using hform

theorem conjugate_form_mono (h : values ≤ values') (x : Fin n → ℝ) :
    x ⬝ᵥ (vectors * diagonal values * vectorsᵀ) *ᵥ x ≤
      x ⬝ᵥ (vectors * diagonal values' * vectorsᵀ) *ᵥ x := by
  rw [conjugate_form, conjugate_form]
  exact Finset.sum_le_sum fun i _ => mul_le_mul_of_nonneg_right (h i) (sq_nonneg _)

theorem mul_dotProduct_self_le (hunit : vectors * vectorsᵀ = 1) {floor : ℝ}
    (h : ∀ i, floor ≤ values i) (x : Fin n → ℝ) :
    floor * (x ⬝ᵥ x) ≤ x ⬝ᵥ (vectors * diagonal values * vectorsᵀ) *ᵥ x := by
  rw [conjugate_form, dotProduct_self_rotated hunit, Finset.mul_sum]
  exact Finset.sum_le_sum fun i _ => mul_le_mul_of_nonneg_right (h i) (sq_nonneg _)

/-- A shift of all eigenvalues is a shift of the matrix. -/
theorem conjugate_form_add (hunit : vectors * vectorsᵀ = 1) (shift : ℝ) (x : Fin n → ℝ) :
    x ⬝ᵥ (vectors * diagonal (fun i => values i + shift) * vectorsᵀ) *ᵥ x =
      x ⬝ᵥ (vectors * diagonal values * vectorsᵀ) *ᵥ x + shift * (x ⬝ᵥ x) := by
  rw [conjugate_form, conjugate_form, dotProduct_self_rotated hunit, Finset.mul_sum,
    ← Finset.sum_add_distrib]
  exact Finset.sum_congr rfl fun i _ => add_mul _ _ _

theorem conjugate_injective (hunit : vectors * vectorsᵀ = 1)
    (h : vectors * diagonal values * vectorsᵀ = vectors * diagonal values' * vectorsᵀ) :
    values = values' := by
  have hunit' : vectorsᵀ * vectors = 1 := mul_eq_one_comm.mp hunit
  have hback (d : Fin n → ℝ) :
      vectorsᵀ * (vectors * diagonal d * vectorsᵀ) * vectors = diagonal d := by
    rw [mul_assoc, mul_assoc, hunit', mul_one, ← mul_assoc, hunit', one_mul]
  apply diagonal_injective
  rw [← hback values, h, hback values']

open Polynomial in
theorem roots_charpoly_conjugate (hunit : vectors * vectorsᵀ = 1) (values : Fin n → ℝ) :
    (vectors * diagonal values * vectorsᵀ).charpoly.roots = (List.ofFn values : Multiset ℝ) := by
  have hunit' : vectorsᵀ * vectors = 1 := mul_eq_one_comm.mp hunit
  have hproduct : ∏ i, (X - C (values i)) =
      ((List.ofFn values : Multiset ℝ).map fun value => X - C value).prod := by
    rw [Multiset.map_coe, Multiset.prod_coe, List.map_ofFn, List.prod_ofFn]
    rfl
  rw [mul_assoc, charpoly_mul_comm, mul_assoc, hunit', mul_one, charpoly_diagonal, hproduct,
    roots_multiset_prod_X_sub_C]

end Conjugates

/-! ## Projections -/

namespace Projection

theorem smallest_spec {values : Vec ℝ} (h : values ≠ []) :
    smallest values ∈ values ∧ ∀ value ∈ values, smallest values ≤ value := by
  cases values with
  | nil => contradiction
  | cons first rest =>
      have hsmaller : (fun a b : ℝ => if a ≤ b then a else b) = min := by
        funext a b
        split
        · rw [min_eq_left ‹a ≤ b›]
        · rw [min_eq_right (not_le.mp ‹¬a ≤ b›).le]
      have hmin : (first :: rest).min? = some (smallest (first :: rest)) := by
        rw [List.min?_cons', smallest, hsmaller]
      exact List.min?_eq_some_iff.mp hmin

/-- A value lies below the floor if and only if the smallest does. -/
theorem countP_pos_iff_smallest {values : Vec ℝ} (h : values ≠ []) (floor : ℝ) :
    0 < values.countP (fun value => decide (value < floor)) ↔ smallest values < floor := by
  obtain ⟨hmem, hleast⟩ := smallest_spec h
  rw [List.countP_pos_iff]
  constructor
  · rintro ⟨value, hvalue, hbelow⟩
    exact (hleast value hvalue).trans_lt (of_decide_eq_true hbelow)
  · exact fun hbelow => ⟨_, hmem, decide_eq_true hbelow⟩

theorem countP_ofFn_eq_zero_iff (values : Fin n → ℝ) (floor : ℝ) :
    (List.ofFn values).countP (fun value => decide (value < floor)) = 0 ↔
      ∀ i, floor ≤ values i := by
  simp [List.countP_eq_zero]

theorem lift_eq (p : Projection ℝ) (floor : ℝ) :
    p.lift floor = max (floor - p.minEigenvalue) 0 := by
  rw [lift, Scalar.larger_eq_max]
  norm_num

/-- No eigenvalue is raised by more than the smallest. -/
theorem max_le_add_lift {p : Projection ℝ} {value : ℝ} (floor : ℝ)
    (h : p.minEigenvalue ≤ value) : max value floor ≤ value + p.lift floor := by
  rw [lift_eq]
  refine max_le (le_add_of_nonneg_right (le_max_right _ _)) ?_
  linarith [le_max_left (floor - p.minEigenvalue) 0]

/-- What a projection `p` of the symmetric matrix `S` onto a floor has found in its place. -/
structure Surrogate (S : RealMatrix n) (floor : ℝ) (p : Projection ℝ) (P : RealMatrix n) :
    Prop where
  matrix_eq : p.matrix = tabulate P
  isSymm : P.IsSymm
  minEigenvalue_mem : p.minEigenvalue ∈ S.charpoly.roots
  minEigenvalue_le : ∀ value ∈ S.charpoly.roots, p.minEigenvalue ≤ value
  floor_le : ∀ x : Fin n → ℝ, floor * (x ⬝ᵥ x) ≤ x ⬝ᵥ P *ᵥ x
  above : ∀ x : Fin n → ℝ, x ⬝ᵥ S *ᵥ x ≤ x ⬝ᵥ P *ᵥ x
  lifted : ∀ x : Fin n → ℝ, x ⬝ᵥ P *ᵥ x ≤ x ⬝ᵥ S *ᵥ x + p.lift floor * (x ⬝ᵥ x)
  lift_pos_iff : 0 < p.lift floor ↔ 0 < p.clamped
  clamped_eq_zero_iff : p.clamped = 0 ↔ P = S
  /-- The eigenvalues below the floor are counted, with their multiplicity. -/
  clamped_eq : p.clamped = S.charpoly.roots.countP (· < floor)
  /-- None of them is left. -/
  raised : ∀ value ∈ P.charpoly.roots, floor ≤ value

variable [Kernel ℝ] [ExactKernel] {A : RealMatrix n} {floor : ℝ} {p : Projection ℝ}

theorem exists_surrogate (hn : n ≠ 0) (hp : Projection.ofMatrix (tabulate A) floor = .ok p) :
    ∃ P, p.Surrogate (fromLower A) floor P := by
  obtain ⟨vectors, values, hunit, hdiagonal, rfl⟩ := ofMatrix_form hp
  rw [← hdiagonal]
  have hnonempty : List.ofFn values ≠ [] := by simpa using hn
  obtain ⟨hmem, hleast⟩ := smallest_spec hnonempty
  have hlowest (i : Fin n) : smallest (List.ofFn values) ≤ values i :=
    hleast _ (List.mem_ofFn.mpr ⟨i, rfl⟩)
  refine ⟨vectors * diagonal (fun i => max (values i) floor) * vectorsᵀ, ?_⟩
  constructor
  case matrix_eq => rfl
  case isSymm => exact isSymm_conjugate _ _
  case minEigenvalue_mem =>
    rw [roots_charpoly_conjugate hunit]
    exact Multiset.mem_coe.mpr hmem
  case minEigenvalue_le =>
    rw [roots_charpoly_conjugate hunit]
    exact fun value hvalue => hleast value (Multiset.mem_coe.mp hvalue)
  case floor_le => exact mul_dotProduct_self_le hunit fun i => le_max_right _ _
  case above => exact conjugate_form_mono fun i => le_max_left _ _
  case lifted =>
    intro x
    rw [← conjugate_form_add hunit]
    exact conjugate_form_mono (fun i => max_le_add_lift floor (hlowest i)) x
  case lift_pos_iff =>
    rw [lift_eq, lt_max_iff, or_iff_left (lt_irrefl _), sub_pos]
    exact (countP_pos_iff_smallest hnonempty floor).symm
  case clamped_eq_zero_iff =>
    rw [countP_ofFn_eq_zero_iff]
    constructor
    · intro hfloor
      simp only [max_eq_left (hfloor _)]
    · intro hsame i
      rw [← congrFun (conjugate_injective hunit hsame) i]
      exact le_max_right _ _
  case clamped_eq =>
    rw [roots_charpoly_conjugate hunit, Multiset.coe_countP]
  case raised =>
    rw [roots_charpoly_conjugate hunit]
    intro value hvalue
    obtain ⟨i, rfl⟩ := List.mem_ofFn.mp (Multiset.mem_coe.mp hvalue)
    exact le_max_right _ _

/-- What was projected is found in place of itself. -/
theorem Surrogate.again {S P : RealMatrix n} (h : p.Surrogate S floor P) (hn : n ≠ 0) :
    ∃ p', Projection.ofMatrix p.matrix floor = .ok p' ∧ p'.matrix = p.matrix ∧ p'.clamped = 0 := by
  obtain ⟨p', hp'⟩ := exists_ofMatrix (isSquare_tabulate P) (by simpa using hn) floor
  obtain ⟨P', hP'⟩ := exists_surrogate hn hp'
  rw [fromLower_of_isSymm h.isSymm] at hP'
  have hnone : p'.clamped = 0 := by
    rw [hP'.clamped_eq, Multiset.countP_eq_zero]
    exact fun value hvalue => not_lt.mpr (h.raised value hvalue)
  rw [h.matrix_eq]
  refine ⟨p', hp', ?_, hnone⟩
  rw [hP'.matrix_eq, hP'.clamped_eq_zero_iff.mp hnone]

end Projection

/-! ## Plain Newton -/

section Newton

variable [Kernel ℝ] {attempts : ℕ} {config : SolverConfig ℝ} {x0 : Vec ℝ}

/-- Where the Hessian is positive definite everywhere, plain Newton is never refused a direction,
and with valid parameters it returns a solution. -/
theorem Answers.Computes.newton_answers [ExactFactorisation] {p : Answers ℝ}
    {f : (Fin n → ℝ) → ℝ} {g : (Fin n → ℝ) → Fin n → ℝ} {H : (Fin n → ℝ) → RealMatrix n}
    (hcomputes : p.Computes f g H) (hposDef : ∀ v, (H v).PosDef) {σ : Type}
    {problem : Objective σ ℝ} (hgives : problem.Gives p) (attempts : ℕ)
    (config : SolverConfig ℝ) (x0 : Vec ℝ) (inherited : Option ℝ) (o : σ) :
    let result := (solve .newton attempts problem config x0 (.start o inherited)).1
    (∀ iteration, result ≠ .error (.error (.hessianNotPositiveDefinite iteration))) ∧
      (config.validate = .ok () → x0.length = n → ∃ solution, result = .ok solution) := by
  intro result
  obtain ⟨session, hrun⟩ : ∃ session,
      solve .newton attempts problem config x0 (.start o inherited) = (result, session) :=
    ⟨_, rfl⟩
  have hregion : NewtonRegion g H fun _ => True :=
    ⟨fun v _ => hposDef v, fun _ _ _ _ _ _ _ => trivial⟩
  have hkeep : StepsKeep p .newton attempts config (Inside fun _ : Fin n → ℝ => True) := by
    rintro carried view hshown ⟨v, hv, -⟩
    obtain ⟨d, hd, hanswer⟩ := hshown.exists_answer hcomputes hv
    obtain ⟨-, y, hy, -⟩ := hregion.solvesFor hcomputes trivial hanswer
    exact ⟨_, by rw [hv, ← hd, hy, Vec.move_ofFn], _, rfl, trivial⟩
  have hunknowns : problem.unknowns = n := hgives.unknowns.trans hcomputes.unknowns
  have hstart (hlength : x0.length = problem.unknowns) :
      Inside (fun _ : Fin n → ℝ => True) x0 := by
    obtain ⟨v, rfl⟩ := Vec.exists_eq_ofFn x0 (hlength.trans hunknowns)
    exact ⟨v, rfl, trivial⟩
  obtain ⟨hunrefused, hanswers⟩ :=
    solve_newton_answers hgives (hregion.serves hcomputes) (fun _ => hkeep) hstart hrun
  exact ⟨hunrefused, fun hconfig hlength => hanswers hconfig (hlength.trans hunknowns.symm)⟩

variable [ExactKernel]

/-- A projected spring reports its exact Hessian with the eigenvalues raised to the floor. -/
theorem Spring.exists_hessian_form {s : Spring ℝ} {floor : ℝ} (hmode : s.mode = .projected floor)
    (x : Fin 4 → ℝ) :
    ∃ (vectors : RealMatrix 4) (values : Fin 4 → ℝ), vectors * vectorsᵀ = 1 ∧
      vectors * diagonal values * vectorsᵀ = s.hessianAt x ∧ s.hessian (List.ofFn x) =
        .ok (tabulate (vectors * diagonal (fun i => max (values i) floor) * vectorsᵀ)) := by
  obtain ⟨p, hp⟩ := Projection.exists_ofMatrix (isSquare_tabulate (s.hessianAt x)) (by simp) floor
  obtain ⟨vectors, values, hunit, hdiagonal, hmatrix⟩ := Projection.raised_form hp
  rw [fromLower_of_isSymm (s.hessianAt_isSymm x)] at hdiagonal
  refine ⟨vectors, values, hunit, hdiagonal, ?_⟩
  rw [Problem.hessian_of_projected hmode (s.exactHessian_ofFn x), hp, ← hmatrix]
  rfl

/-- A projected spring reports a positive definite Hessian at every point. -/
theorem Spring.exists_computes_projected {s : Spring ℝ} {floor : ℝ}
    (hmode : s.mode = .projected floor) (hfloor : 0 < floor) :
    ∃ H : (Fin 4 → ℝ) → RealMatrix 4, (∀ x, (H x).PosDef) ∧
      (Problem.spring s).answers.Computes s.valueAt s.gradientAt H := by
  choose vectors values hunit _ hhessian using Spring.exists_hessian_form hmode
  have hposDef (x : Fin 4 → ℝ) :
      (vectors x * diagonal (fun i => max (values x i) floor) * (vectors x)ᵀ).PosDef :=
    posDef_conjugate (hunit x) fun i => lt_max_of_lt_right hfloor
  exact ⟨_, hposDef, rfl, fun _ => rfl, fun _ => rfl, hhessian⟩

/-- Raising a spectrum to a floor gives the symmetric matrix that is put in place of a Hessian, the
same again if it is projected again; and over a positive floor a projected spring never refuses
plain Newton a direction. -/
theorem spectrum_surrogate (floor : ℝ) :
    (∀ n ≠ 0, ∀ A : RealMatrix n, ∃ p P, Projection.ofMatrix (tabulate A) floor = .ok p ∧
      p.Surrogate (fromLower A) floor P ∧
      ∃ p', Projection.ofMatrix p.matrix floor = .ok p' ∧ p'.matrix = p.matrix ∧ p'.clamped = 0) ∧
    (0 < floor → ∀ (stiffness restLength : ℝ) (attempts : ℕ) (config : SolverConfig ℝ)
      (x0 : Vec ℝ) (inherited : Option ℝ) (σ : Type) (o : σ),
      let problem := Problem.spring ⟨stiffness, restLength, .projected floor⟩
      let result :=
        (solve .newton attempts (problem.objective σ) config x0 (.start o inherited)).1
      (∀ iteration, result ≠ .error (.error (.hessianNotPositiveDefinite iteration))) ∧
        (config.validate = .ok () → x0.length = 4 → ∃ solution, result = .ok solution)) := by
  constructor
  · intro n hn A
    obtain ⟨p, hp⟩ := Projection.exists_ofMatrix (isSquare_tabulate A) (by simpa using hn) floor
    obtain ⟨P, hP⟩ := Projection.exists_surrogate hn hp
    exact ⟨p, P, hp, hP, hP.again hn⟩
  · intro hfloor stiffness restLength attempts config x0 inherited σ o problem
    obtain ⟨H, hposDef, hcomputes⟩ := Spring.exists_computes_projected
      (s := ⟨stiffness, restLength, .projected floor⟩) rfl hfloor
    exact hcomputes.newton_answers hposDef (Problem.objective_gives problem) attempts config x0
      inherited o

end Newton

/-- A saddle has an eigenvalue to raise, and a spring that is compressed to half its length settles
somewhere. -/
theorem saddle_surrogate :
    (∃ p P, Projection.ofMatrix (tabulate (diagonal ![1, -3])) 0.5 = .ok p ∧
      p.Surrogate (diagonal ![1, -3]) 0.5 P ∧ 0 < p.clamped) ∧
    ∃ solution : Solution ℝ, (solve .newton 100
      ((Problem.spring ⟨1, 1, .projected 0.5⟩).objective Unit) .default [0, 0, 0.5, 0]
        (.start ())).1 = .ok solution := by
  obtain ⟨hprojects, hsprings⟩ := spectrum_surrogate (0.5 : ℝ)
  constructor
  · obtain ⟨p, P, hp, hP, -⟩ := hprojects 2 (by decide) (diagonal ![1, -3])
    rw [fromLower_of_isSymm (isSymm_diagonal _)] at hP
    refine ⟨p, P, hp, hP, Nat.pos_of_ne_zero fun hzero => ?_⟩
    -- Without a change, the form would be negative along the second axis.
    have hform := hP.floor_le ![0, 1]
    rw [hP.clamped_eq_zero_iff.mp hzero] at hform
    norm_num [dotProduct, mulVec_diagonal, Fin.sum_univ_two] at hform
  · have hfound := hsprings (by norm_num) 1 1 100 .default [0, 0, 0.5, 0] none Unit ()
    exact hfound.2 SolverConfig.default_validate rfl

end Downhill
