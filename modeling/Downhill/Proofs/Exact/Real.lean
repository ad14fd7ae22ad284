import Mathlib
import Downhill.Config
import Downhill.Proofs.Linear.Lanes

/-! # Exact arithmetic

The solvers read over the real numbers. Nothing is rounded, so the order in which products are
summed no longer matters.
-/

open scoped Matrix

namespace Downhill

/-- There is no real above all others; a solve replaces the value in its place before it is read. -/
noncomputable instance : Scalar ℝ where
  decLt := inferInstance
  decLe := inferInstance
  sqrt := Real.sqrt
  abs a := |a|
  signum a := if a < 0 then -1 else 1
  isFinite _ := true
  infinity := 0
  epsilon := 2 ^ (-52 : ℤ)

/-! ## Parameters -/

theorem isFinite_eq (a : ℝ) : Scalar.isFinite a = true := rfl

/-- What a line search is given by default passes its checks. -/
theorem SearchConfig.default_validate :
    (SearchConfig.default : SearchConfig ℝ).validate = .ok () := by
  norm_num [SearchConfig.default, SearchConfig.validate, inUnitInterval, isFinite_eq]

theorem SolverConfig.validate_of_pos {config : SolverConfig ℝ} (htolerance : 0 < config.tolerance)
    (hsearch : config.lineSearch.validate = .ok ()) : config.validate = .ok () := by
  norm_num [SolverConfig.validate, isFinite_eq, htolerance, hsearch]

theorem SolverConfig.default_validate :
    (SolverConfig.default : SolverConfig ℝ).validate = .ok () :=
  validate_of_pos (by norm_num [SolverConfig.default]) SearchConfig.default_validate

theorem SolverConfig.default_initialStep :
    (SolverConfig.default : SolverConfig ℝ).lineSearch.initialStep = 1 := by
  norm_num [SolverConfig.default, SearchConfig.default]

theorem ShiftConfig.default_validate : (ShiftConfig.default : ShiftConfig ℝ).validate = .ok () := by
  norm_num [ShiftConfig.default, ShiftConfig.validate, isFinite_eq]

variable {n : ℕ}

namespace Vec

/-! ## Inner products -/

theorem foldl_add_eq (s : ℝ) (ps : List ℝ) : ps.foldl (fun r p => r + p) s = s + ps.sum := by
  induction ps generalizing s with
  | nil => simp
  | cons p ps ih => rw [List.foldl_cons, ih, List.sum_cons, add_assoc]

theorem sumLanes_eq (s : Lanes ℝ) (ps : List ℝ) : sumLanes s ps = s.total + ps.sum := by
  fun_induction sumLanes s ps with
  | case1 s p0 p1 p2 p3 p4 p5 p6 p7 rest ih =>
      rw [ih]
      simp only [Lanes.total, List.sum_cons]
      ring
  | case2 s rest _ => exact foldl_add_eq s.total rest

theorem inner_eq_sum (x y : Vec ℝ) :
    inner x y = (List.zipWith (fun a b => a * b) x y).sum := by
  rw [inner, sumLanes_eq]
  norm_num [Lanes.total, Lanes.zero]

theorem zipWith_ofFn {β γ δ : Type} (f : β → γ → δ) (x : Fin n → β) (y : Fin n → γ) :
    List.zipWith f (List.ofFn x) (List.ofFn y) = List.ofFn fun i => f (x i) (y i) := by
  apply List.ext_getElem <;> simp

theorem inner_ofFn (x y : Fin n → ℝ) : inner (List.ofFn x) (List.ofFn y) = x ⬝ᵥ y := by
  rw [inner_eq_sum, zipWith_ofFn, List.sum_ofFn]
  rfl

theorem dot_ofFn (x y : Fin n → ℝ) : dot (List.ofFn x) (List.ofFn y) = .ok (x ⬝ᵥ y) := by
  rw [dot, if_pos (by simp), inner_ofFn]

theorem neg_ofFn (x : Fin n → ℝ) : neg (List.ofFn x) = List.ofFn (-x) := by
  rw [neg, List.map_ofFn]
  rfl

/-- Every vector lists its coordinates. -/
theorem exists_eq_ofFn (x : Vec ℝ) (h : x.length = n) : ∃ v : Fin n → ℝ, x = List.ofFn v := by
  subst h
  exact ⟨x.get, (List.ofFn_get x).symm⟩

end Vec

end Downhill
