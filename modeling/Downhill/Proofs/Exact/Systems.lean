import Mathlib
import Downhill.Proofs.Exact.Kernel
import Downhill.Proofs.Run.Direction
import Downhill.Proofs.Search.Carrying

/-! # Systems behind directions

Over a symmetric Hessian, Newton's direction solves the system of the Hessian itself. With a
stabiliser it solves that of a matrix in its place: the Hessian with a shift that is not negative,
or with its eigenvalues raised to a floor. Both keep the eigenvectors of the Hessian.
-/

open Matrix

namespace Downhill

variable {n : ℕ}

/-! ## Numbers -/

theorem Scalar.larger_eq_max (a b : ℝ) : Scalar.larger a b = max a b := by
  have hself : (a == a) = true := beq_self_eq_true a
  rw [Scalar.larger, hself, if_pos rfl, max_def_lt]

instance : Scalar.Scaling ℝ where
  le_of_lt := le_of_lt
  le_of_beq h := le_of_eq (eq_of_beq h)
  le_trans := le_trans
  lt_of_le_of_lt := lt_of_le_of_lt
  lt_irrefl := lt_irrefl
  pos_mul ha hg := by
    norm_num at ha hg ⊢
    exact mul_pos ha (one_pos.trans hg)
  beq_self _ := beq_self_eq_true _
  le_of_not_lt _ _ := not_lt.mp
  lt_of_lt_of_le := lt_of_lt_of_le
  le_mul ha hg := by
    norm_num at ha hg
    exact le_mul_of_one_le_right ha.le hg.le
  div_le ha hg _ := by
    norm_num at ha hg
    exact div_le_self ha.le hg.le

/-! ## Solutions -/

/-- `d` solves the system of the positive definite matrix `S` for the negated gradient. -/
structure SolvesFor (S : RealMatrix n) (g : Fin n → ℝ) (d : Vec ℝ) : Prop where
  posDef : S.PosDef
  system : ∃ y : Fin n → ℝ, d = List.ofFn y ∧ S *ᵥ y = -g

/-- If the gradient is a multiple of an eigenvector, so is the solution. -/
theorem SolvesFor.along {S : RealMatrix n} {e : Fin n → ℝ} {c μ : ℝ} {d : Vec ℝ}
    (h : SolvesFor S (c • e) d) (heigen : S *ᵥ e = μ • e) : ∃ a : ℝ, d = List.ofFn (a • e) := by
  obtain ⟨hposDef, y, rfl, hsystem⟩ := h
  have hinjective : Function.Injective S.mulVec := mulVec_injective_iff_isUnit.mpr hposDef.isUnit
  by_cases hμ : μ = 0
  · -- Then the eigenvector is nought, and the system has only the solution nought.
    have he : e = 0 := hinjective (by rw [heigen, hμ, zero_smul, mulVec_zero])
    refine ⟨0, congrArg List.ofFn (hinjective ?_)⟩
    rw [hsystem, he, smul_zero, smul_zero, mulVec_zero, neg_zero]
  · refine ⟨-(c / μ), congrArg List.ofFn (hinjective ?_)⟩
    rw [hsystem, mulVec_smul, heigen, smul_smul, neg_mul, div_mul_cancel₀ c hμ, neg_smul]

section Systems

variable [Kernel ℝ] [ExactFactorisation] {S : RealMatrix n} {g : Fin n → ℝ}
  {solve : Vec ℝ → Except Fault (Vec ℝ)}

theorem newton_solvesFor (hsymm : S.IsSymm) (hsolver : (tabulate S).solver? = .ok (some solve))
    {regularisation : ℝ} {d : Direction ℝ}
    (hd : Stabiliser.newton solve (List.ofFn g) regularisation = .ok d) :
    SolvesFor S g d.vector := by
  obtain ⟨hsolve, -⟩ := Stabiliser.newton_ok hd
  rw [Vec.neg_ofFn] at hsolve
  obtain ⟨hposDef, y, hy, hsystem⟩ := posDef_system hsolver hsolve
  rw [fromLower_of_isSymm hsymm] at hposDef hsystem
  exact ⟨hposDef, y, hy, hsystem⟩

theorem solution_solvesFor {plain : Vec ℝ → Vec ℝ} (hsymm : S.IsSymm)
    (hfactor : Kernel.factorise (tabulate S) = some plain) {regularisation : ℝ} {d : Direction ℝ}
    (hd : Stabiliser.solution plain n (List.ofFn g) regularisation = .ok d) :
    SolvesFor S g d.vector := by
  rw [← Stabiliser.newton_of_factor] at hd
  refine newton_solvesFor hsymm ?_ hd
  rw [solver?_tabulate, hfactor, Option.map_some]

theorem exists_newton (hposDef : S.PosDef) (g : Fin n → ℝ) (regularisation : ℝ) :
    ∃ solve d, (tabulate S).solver? = .ok (some solve) ∧
      Stabiliser.newton solve (List.ofFn g) regularisation = .ok d := by
  obtain ⟨solve, hsolver, hsolve⟩ := exists_exact_solver hposDef
  obtain ⟨y, hy, -⟩ := hsolve (-g)
  refine ⟨solve, ⟨List.ofFn y, regularisation⟩, hsolver, ?_⟩
  rw [Stabiliser.newton, Vec.neg_ofFn, hy]

end Systems

/-! ## Rules -/

/-- Stabilisers whose parameters make sense. -/
inductive Stabiliser.Sound : Stabiliser ℝ → Prop
  | shift {config : ShiftConfig ℝ} : config.validate = .ok () → Sound (.diagonalShift config)
  | floor {floor : ℝ} : 0 < floor → Sound (.eigenvalueFloor floor)

section Rules

variable [Kernel ℝ] {f : Answers ℝ} {attempts iteration : ℕ} {carried : Option ℝ} {x : Vec ℝ}
  {H : RealMatrix n} {g : Fin n → ℝ} {d : Direction ℝ}

section Factorisation

variable [ExactFactorisation]

theorem Rule.newton_solvesFor (hsymm : H.IsSymm) (hhessian : f.hessian x = .ok (tabulate H))
    (hd : (Rule.newton.answer attempts f carried x (List.ofFn g) iteration).1 = .ok d) :
    SolvesFor H g d.vector := by
  rw [answer_newton, hhessian] at hd
  dsimp only [newtonOutcome] at hd
  split at hd
  · contradiction
  · contradiction
  · rename_i solve hsolver
    exact Downhill.newton_solvesFor hsymm hsolver hd

/-- Plain Newton finds a direction where the Hessian is positive definite. -/
theorem Rule.exists_newton_answer (hposDef : H.PosDef)
    (hhessian : f.hessian x = .ok (tabulate H)) (g : Fin n → ℝ) :
    ∃ d, (Rule.newton.answer attempts f carried x (List.ofFn g) iteration).1 = .ok d := by
  obtain ⟨solve, d, hsolver, hd⟩ := exists_newton hposDef g 0.0
  refine ⟨d, ?_⟩
  rw [answer_newton, hhessian]
  dsimp only [newtonOutcome]
  rw [hsolver]
  exact hd

theorem shiftDirection_solvesFor {config : ShiftConfig ℝ} (hvalid : config.validate = .ok ())
    (hsymm : H.IsSymm)
    (hd : (Stabiliser.shiftDirection config attempts carried (tabulate H) (List.ofFn g)
      iteration).outcome = .ok d) :
    ∃ delta : ℝ, 0 ≤ delta ∧ SolvesFor (H + delta • 1) g d.vector := by
  obtain ⟨ended, hended⟩ :=
    Stabiliser.exists_shiftsTo config attempts carried (tabulate H) (List.ofFn g) iteration
  rw [hended.eq (isSquare_tabulate H)] at hd
  cases hended with
  | unshifted hfactor =>
      rw [height_tabulate] at hd
      refine ⟨0, le_rfl, ?_⟩
      rw [zero_smul, add_zero]
      exact solution_solvesFor hsymm hfactor hd
  | @shifted k solve hnone hk hrefused hbelow hfactor =>
      have hpos : (0.0 : ℝ) < Stabiliser.shiftAt config carried k :=
        (Stabiliser.seed_le_shiftAt hvalid carried k).1
      norm_num at hpos
      rw [shift_tabulate] at hfactor
      rw [height_tabulate] at hd
      exact ⟨_, hpos.le, solution_solvesFor (hsymm.add (isSymm_one.smul _)) hfactor hd⟩
  | overflow => cases hd
  | unsettled => cases hd

end Factorisation

variable [ExactKernel]

theorem floorDirection_solvesFor {floor : ℝ} (hsymm : H.IsSymm)
    (hd : (Stabiliser.floorDirection floor (tabulate H) (List.ofFn g) iteration).1 = .ok d) :
    ∃ (vectors : RealMatrix n) (values : Fin n → ℝ), vectors * vectorsᵀ = 1 ∧
      vectors * diagonal values * vectorsᵀ = H ∧
      SolvesFor (vectors * diagonal (fun i => max (values i) floor) * vectorsᵀ) g d.vector := by
  have hended := Stabiliser.floorDirection_floorsTo floor (tabulate H) (List.ofFn g) iteration
  generalize Stabiliser.floorDirection floor (tabulate H) (List.ofFn g) iteration = ended
    at hd hended
  cases hended with
  | broken => cases hd
  | misshapen => cases hd
  | refused => cases hd
  | solved hprojection hsolver =>
      obtain ⟨vectors, values, hunit, hdiagonal, hmatrix⟩ := Projection.raised_form hprojection
      rw [fromLower_of_isSymm hsymm] at hdiagonal
      rw [hmatrix] at hsolver
      exact ⟨vectors, values, hunit, hdiagonal, newton_solvesFor (isSymm_conjugate _ _) hsolver hd⟩

/-- Where the gradient is a multiple of an eigenvector of the Hessian, so is the direction of every
rule. -/
theorem Rule.answer_along {rule : Rule ℝ}
    (hvalid : ∀ stabiliser, rule = .stabilised stabiliser → stabiliser.validate = .ok ())
    (hsymm : H.IsSymm) (hhessian : f.hessian x = .ok (tabulate H)) {e : Fin n → ℝ} {c μ : ℝ}
    (heigen : H *ᵥ e = μ • e)
    (hd : (rule.answer attempts f carried x (List.ofFn (c • e)) iteration).1 = .ok d) :
    ∃ a : ℝ, d.vector = List.ofFn (a • e) := by
  cases rule with
  | steepest =>
      rw [answer_steepest] at hd
      cases hd
      exact ⟨-c, by rw [Vec.neg_ofFn, neg_smul]⟩
  | newton => exact (newton_solvesFor hsymm hhessian hd).along heigen
  | stabilised stabiliser =>
      have hstabiliser := hvalid stabiliser rfl
      rw [answer_stabilised, hhessian] at hd
      cases stabiliser with
      | diagonalShift config =>
          obtain ⟨delta, -, hsolves⟩ := shiftDirection_solvesFor hstabiliser hsymm hd
          have hshifted : (H + delta • 1) *ᵥ e = (μ + delta) • e := by
            rw [add_mulVec, heigen, smul_mulVec, one_mulVec, add_smul]
          exact hsolves.along hshifted
      | eigenvalueFloor floor =>
          obtain ⟨vectors, values, hunit, hdiagonal, hsolves⟩ :=
            floorDirection_solvesFor hsymm hd
          rw [← hdiagonal] at heigen
          exact hsolves.along (conjugate_mulVec hunit heigen fun value => max value floor)

/-- In place of a diagonal Hessian, a stabiliser solves with a positive diagonal that is nowhere
smaller. -/
theorem Stabiliser.Sound.raises_diagonal {stabiliser : Stabiliser ℝ} (h : stabiliser.Sound)
    {D : Fin n → ℝ} (hhessian : f.hessian x = .ok (tabulate (diagonal D)))
    (hd : ((Rule.stabilised stabiliser).answer attempts f carried x (List.ofFn g) iteration).1 =
      .ok d) :
    ∃ raised : Fin n → ℝ, D ≤ raised ∧ SolvesFor (diagonal raised) g d.vector := by
  rw [Rule.answer_stabilised, hhessian] at hd
  cases h with
  | shift hvalid =>
      obtain ⟨delta, hdelta, hsolves⟩ :=
        shiftDirection_solvesFor hvalid (isSymm_diagonal D) hd
      refine ⟨fun i => D i + delta, fun i => le_add_of_nonneg_right hdelta, ?_⟩
      have hsum : diagonal D + delta • 1 = diagonal fun i => D i + delta := by
        rw [smul_one_eq_diagonal, diagonal_add]
      rwa [← hsum]
  | @floor floor hfloor =>
      obtain ⟨vectors, values, hunit, hdiagonal, hsolves⟩ :=
        floorDirection_solvesFor (isSymm_diagonal D) hd
      refine ⟨fun i => max (D i) floor, fun i => le_max_left _ _, ?_⟩
      rwa [conjugate_diagonal hunit hdiagonal fun value => max value floor] at hsolves

end Rules

end Downhill
