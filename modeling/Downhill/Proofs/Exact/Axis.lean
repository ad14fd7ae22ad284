import Mathlib
import Downhill.Proofs.Exact.Surrogate

/-! # The axis of a spring

The energy of a spring does not change if both nodes are displaced alike, and its gradient points
along the line through the nodes. In exact arithmetic that line is an eigenvector of the Hessian,
and stays one when eigenvalues are shifted or raised. So no solver moves the centre of a spring or
turns the spring.
-/

open Matrix

namespace Downhill

namespace Spring

variable (p : Spring ℝ)

/-! ## Displacements -/

/-- Both nodes are displaced alike. -/
def displaced (a b : ℝ) (x : Fin 4 → ℝ) : Fin 4 → ℝ := x + ![a, b, a, b]

theorem offset_displaced (a b : ℝ) (x : Fin 4 → ℝ) :
    offset (List.ofFn (displaced a b x)) = offset (List.ofFn x) := by
  rw [offset_ofFn, offset_ofFn]
  simp only [offsetAt, displaced, Pi.add_apply, cons_val, add_sub_add_right_eq_sub]

theorem exactHessian_displaced (a b : ℝ) (x : Fin 4 → ℝ) :
    p.exactHessian (List.ofFn (displaced a b x)) = p.exactHessian (List.ofFn x) := by
  rw [exactHessian, offset_displaced, exactHessian]

/-! ## The axis -/

/-- The offset of the nodes, with opposite signs at the two. -/
def axis (x : Fin 4 → ℝ) : Fin 4 → ℝ :=
  ![(offsetAt x).1, (offsetAt x).2, -(offsetAt x).1, -(offsetAt x).2]

theorem gradientAt_eq_smul_axis (x : Fin 4 → ℝ) :
    p.gradientAt x = (2 * p.stiffness * p.strain (x 0 - x 2) (x 1 - x 3)) • axis x := by
  simp only [gradientAt, axis, offsetAt, smul_cons, smul_empty, smul_eq_mul, neg_mul, mul_neg]
  norm_num

/-- The axis is an eigenvector of the Hessian. -/
theorem hessianAt_mulVec_axis (x : Fin 4 → ℝ) :
    p.hessianAt x *ᵥ axis x = (4 * p.stiffness * (p.strain (x 0 - x 2) (x 1 - x 3) +
      2 * ((x 0 - x 2) ^ 2 + (x 1 - x 3) ^ 2))) • axis x := by
  ext i
  fin_cases i <;> simp [hessianAt, axis, offsetAt, mulVec, dotProduct, Fin.sum_univ_four] <;>
    norm_num <;> ring

/-- Whether it projects or not, a spring reports a symmetric Hessian with its axis for an
eigenvector. -/
theorem exists_computes_axis [Kernel ℝ] [ExactKernel] :
    ∃ H : (Fin 4 → ℝ) → RealMatrix 4, (∀ x, (H x).IsSymm) ∧
      (∀ x, ∃ μ : ℝ, H x *ᵥ axis x = μ • axis x) ∧
      (Problem.spring p).answers.Computes p.valueAt p.gradientAt H := by
  cases hmode : p.mode with
  | exact =>
      exact ⟨p.hessianAt, p.hessianAt_isSymm, fun x => ⟨_, p.hessianAt_mulVec_axis x⟩,
        p.computes hmode⟩
  | projected floor =>
      choose vectors values hunit hdiagonal hhessian using exists_hessian_form hmode
      refine ⟨_, fun x => isSymm_conjugate _ _, fun x => ?_, rfl, fun _ => rfl, fun _ => rfl,
        hhessian⟩
      have heigen := p.hessianAt_mulVec_axis x
      rw [← hdiagonal] at heigen
      exact ⟨_, conjugate_mulVec (hunit x) heigen fun value => max value floor⟩

/-! ## Solves -/

/-- The spring at `v` has the centre that it has at `x`, and lies on the same line through it. -/
structure OnLine (x v : Fin 4 → ℝ) : Prop where
  sum_fst : v 0 + v 2 = x 0 + x 2
  sum_snd : v 1 + v 3 = x 1 + x 3
  offset_eq : ∃ c : ℝ, v 0 - v 2 = c * (x 0 - x 2) ∧ v 1 - v 3 = c * (x 1 - x 3)

theorem OnLine.refl (x : Fin 4 → ℝ) : OnLine x x :=
  ⟨rfl, rfl, 1, (one_mul _).symm, (one_mul _).symm⟩

/-- A spring that is moved along its axis stays on its line. -/
theorem OnLine.move {x v : Fin 4 → ℝ} (h : OnLine x v) (t : ℝ) : OnLine x (v + t • axis v) := by
  obtain ⟨hfst, hsnd, c, hdx, hdy⟩ := h
  let w := v + t • axis v
  have hw : w 0 = v 0 + t * (v 0 - v 2) ∧ w 1 = v 1 + t * (v 1 - v 3) ∧
      w 2 = v 2 - t * (v 0 - v 2) ∧ w 3 = v 3 - t * (v 1 - v 3) := by
    simp only [w, axis, offsetAt, Pi.add_apply, Pi.smul_apply, smul_eq_mul, cons_val, mul_neg,
      ← sub_eq_add_neg, and_self]
  obtain ⟨h0, h1, h2, h3⟩ := hw
  constructor
  case sum_fst => linear_combination h0 + h2 + hfst
  case sum_snd => linear_combination h1 + h3 + hsnd
  case offset_eq =>
    refine ⟨(1 + 2 * t) * c, ?_, ?_⟩
    · linear_combination h0 - h2 + (1 + 2 * t) * hdx
    · linear_combination h1 - h3 + (1 + 2 * t) * hdy

section Solves

variable [Kernel ℝ] [ExactKernel] {rule : Rule ℝ} {attempts : ℕ} {config : SolverConfig ℝ}

/-- Whatever the rule is, its steps keep a spring on its line. -/
theorem stepsKeep_onLine
    (hvalid : ∀ stabiliser, rule = .stabilised stabiliser → stabiliser.validate = .ok ())
    (x0 : Fin 4 → ℝ) :
    StepsKeep (Problem.spring p).answers rule attempts config (Inside (OnLine x0)) := by
  rintro carried view hshown ⟨v, hv, honline⟩
  obtain ⟨H, hsymm, heigen, hcomputes⟩ := p.exists_computes_axis
  obtain ⟨d, hd, hanswer⟩ := hshown.exists_answer hcomputes hv
  rw [gradientAt_eq_smul_axis] at hanswer
  obtain ⟨μ, hμ⟩ := heigen v
  obtain ⟨a, ha⟩ := Rule.answer_along hvalid (hsymm v) (hcomputes.hessian v) hμ hanswer
  refine ⟨_, by rw [hv, ← hd, ha, Vec.move_ofFn], _, rfl, ?_⟩
  rw [smul_smul]
  exact honline.move _

/-- In exact arithmetic, every solve keeps the centre and the line of a spring, whichever Hessian
the spring reports. What the spring answers does not change if both nodes are displaced alike. -/
theorem solve_keepsToLine :
    (∀ (rule : Rule ℝ) (attempts : ℕ) (config : SolverConfig ℝ) (x0 : Fin 4 → ℝ)
      (inherited : Option ℝ) (σ : Type) (o : σ),
      let run := solve rule attempts ((Problem.spring p).objective σ) config (List.ofFn x0)
        (.start o inherited)
      (∀ i ≤ run.2.views.size, ∃ x,
        reached (List.ofFn x0) (run.2.views.toList.take i) = .ok x ∧ Inside (OnLine x0) x) ∧
      ∀ solution, run.1 = .ok solution → Inside (OnLine x0) solution.x) ∧
    ∀ (a b : ℝ) (x : Fin 4 → ℝ),
      p.value (List.ofFn (displaced a b x)) = p.value (List.ofFn x) ∧
      p.gradient (List.ofFn (displaced a b x)) = p.gradient (List.ofFn x) ∧
      p.hessian (List.ofFn (displaced a b x)) = p.hessian (List.ofFn x) := by
  constructor
  · intro rule attempts config x0 inherited σ o run
    apply solve_keeps (Problem.objective_gives _) _ ⟨x0, rfl, .refl x0⟩ rfl
    exact fun hadmissible => p.stepsKeep_onLine hadmissible.rule_valid x0
  · intro a b x
    refine ⟨?_, ?_, ?_⟩
    · rw [value, offset_displaced, value]
    · rw [gradient, offset_displaced, gradient]
    · rw [hessian, exactHessian_displaced, hessian]

end Solves

/-- A spring on the first axis, compressed to half its length, ends up on the first axis with its
centre where it was. -/
theorem compressed_keepsToLine :
    ∃ solution : Solution ℝ, ∃ t : ℝ, (solve .newton 100
      ((Problem.spring ⟨1, 1, .projected 0.5⟩).objective Unit) .default [0, 0, 0.5, 0]
        (.start ())).1 = .ok solution ∧ solution.x = [t, 0, 0.5 - t, 0] := by
  let p : Spring ℝ := ⟨1, 1, .projected 0.5⟩
  have hmode : p.mode = .projected 0.5 := rfl
  obtain ⟨H, hposDef, hcomputes⟩ := exists_computes_projected hmode (by norm_num)
  obtain ⟨solution, hsolution⟩ := (hcomputes.newton_answers hposDef
    (Problem.objective_gives (Problem.spring p)) 100 .default [0, 0, 0.5, 0] none ()).2
    SolverConfig.default_validate rfl
  obtain ⟨v, hv, hfst, hsnd, c, -, hdy⟩ :=
    ((solve_keepsToLine p).1 .newton 100 .default ![0, 0, 0.5, 0] none Unit ()).2 solution hsolution
  simp only [cons_val, sub_self, mul_zero, zero_add] at hfst hsnd hdy
  refine ⟨solution, v 0, hsolution, ?_⟩
  have hv1 : v 1 = 0 := by linarith
  have hv2 : v 2 = 0.5 - v 0 := by linarith
  have hv3 : v 3 = 0 := by linarith
  rw [hv, List.ofFn_succ, List.ofFn_succ, List.ofFn_succ, List.ofFn_succ, List.ofFn_zero]
  simp [hv1, hv2, hv3]

end Spring

end Downhill
