import Downhill.Proofs.Evaluation.Answers
import Downhill.Proofs.Linear.Shape

/-! # Objectives that fit

The problems of the library answer at every point with as many coordinates as they have unknowns,
and their derivatives have that size. Only a projected spring can fail to: if the decomposition of
its Hessian breaks down.
-/

namespace Downhill

variable {α : Type} [Scalar α] [Kernel α]

/-- The objective answers wherever a point has as many coordinates as there are unknowns, with
derivatives of that size; `Decomposes` tells which matrices it decomposes for its Hessian. -/
structure Answers.Fitting (f : Answers α) (Decomposes : Vec α → Matrix α → Prop) : Prop where
  value : ∀ x, x.length = f.unknowns → ∃ v, f.value x = .ok v
  gradient : ∀ x, x.length = f.unknowns → ∃ g, f.gradient x = .ok g ∧ g.length = f.unknowns
  hessian : ∀ x m, x.length = f.unknowns → f.hessian x = .ok m → m.Square f.unknowns
  broken : ∀ x fault, x.length = f.unknowns → f.hessian x = .error fault →
    ∃ m, Decomposes x m ∧ m.BreaksDown fault

omit [Scalar α] in
theorem Answers.Fitting.recorded {f : Answers α} {Decomposes : Vec α → Matrix α → Prop}
    (h : f.Fitting Decomposes) : f.recorded.Fitting Decomposes where
  value := h.value
  gradient x hx := by
    obtain ⟨g, hg, hlength⟩ := h.gradient x hx
    obtain ⟨v, hv⟩ := h.value x hx
    refine ⟨g, ?_, hlength⟩
    simp only [Answers.recorded, hg, hv]
    rfl
  hessian := h.hessian
  broken := h.broken

/-! ## Problems -/

/-- The matrices that a problem decomposes for its Hessian at `x`. -/
def Problem.Decomposes (p : Problem α) (x : Vec α) (m : Matrix α) : Prop :=
  ∃ (s : Spring α) (floor : α), p = .spring s ∧ s.mode = .projected floor ∧ s.exactHessian x = .ok m

namespace Problem

theorem quadratic_fitting (q : Quadratic α) :
    (quadratic q).answers.Fitting (quadratic q).Decomposes := by
  have hmatrix : q.matrix.Square q.unknowns := ⟨q.square, q.height_eq⟩
  refine ⟨fun x hx => ?_, fun x hx => ?_, fun x m hx hm => ?_, nofun⟩
  · obtain ⟨product, hproduct, hlength⟩ := hmatrix.mulVec hx
    have hform : x.dot product = .ok (x.inner product) := Vec.dot_of_length (hx.trans hlength.symm)
    have hlinear : Vec.dot q.linear x = .ok (q.linear.inner x) := Vec.dot_of_length hx.symm
    refine ⟨0.5 * x.inner product - q.linear.inner x, ?_⟩
    change q.value x = _
    simp only [Quadratic.value, hproduct, hlinear, bind, Except.bind, hform]
    rfl
  · obtain ⟨product, hproduct, hlength⟩ := hmatrix.mulVec hx
    obtain ⟨g, hg, hsize⟩ := Vec.exists_sub (y := q.linear) hlength
    refine ⟨g, ?_, hsize.trans hlength⟩
    change q.gradient x = _
    simp only [Quadratic.gradient, hproduct]
    exact hg
  · cases hm
    exact hmatrix

theorem rosenbrock_fitting (r : Rosenbrock α) :
    (rosenbrock r).answers.Fitting (rosenbrock r).Decomposes where
  value
    | [_, _], _ => ⟨_, rfl⟩
  gradient
    | [_, _], _ => ⟨_, rfl, rfl⟩
  hessian
    | [_, _], _, _, rfl => .of_rows rfl (by simp [answers, unknowns, Rosenbrock.unknowns])
  broken
    | [_, _], _, _, hfault => nomatch hfault

theorem saddle_fitting (s : Saddle α) : (saddle s).answers.Fitting (saddle s).Decomposes where
  value
    | [_, _], _ => ⟨_, rfl⟩
  gradient
    | [_, _], _ => ⟨_, rfl, rfl⟩
  hessian
    | [_, _], _, _, rfl => Matrix.diagonal_square _
  broken
    | [_, _], _, _, hfault => nomatch hfault

section Spring

variable {s : Spring α} {x : Vec α} {plain : Matrix α}

omit [Kernel α] in
theorem exists_exactHessian (s : Spring α) (hx : x.length = 4) :
    ∃ plain, s.exactHessian x = .ok plain ∧ plain.Square 4 := by
  match x, hx with
  | [_, _, _, _], _ => exact ⟨_, rfl, .of_rows rfl (by simp)⟩

theorem hessian_of_exact (hmode : s.mode = .exact) (hexact : s.exactHessian x = .ok plain) :
    s.hessian x = .ok plain := by
  rw [Spring.hessian, hexact, hmode]
  rfl

theorem hessian_of_projected {floor : α} (hmode : s.mode = .projected floor)
    (hexact : s.exactHessian x = .ok plain) :
    s.hessian x = (Projection.ofMatrix plain floor).map Projection.matrix := by
  rw [Spring.hessian, hexact, hmode]
  cases hprojection : Projection.ofMatrix plain floor with
  | ok projection => simp only [bind, Except.bind, hprojection]; rfl
  | error fault => simp only [bind, Except.bind, hprojection]; rfl

theorem spring_fitting [Kernel.Shaped α] (s : Spring α) :
    (spring s).answers.Fitting (spring s).Decomposes where
  value
    | [_, _, _, _], _ => ⟨_, rfl⟩
  gradient
    | [_, _, _, _], _ => ⟨_, rfl, rfl⟩
  hessian x m hx hm := by
    obtain ⟨plain, hexact, hsquare⟩ := exists_exactHessian s hx
    change s.hessian x = .ok m at hm
    cases hmode : s.mode with
    | exact =>
        rw [hessian_of_exact hmode hexact] at hm
        cases hm
        exact hsquare
    | projected floor =>
        rw [hessian_of_projected hmode hexact] at hm
        cases hprojection : Projection.ofMatrix plain floor with
        | error fault =>
            rw [hprojection] at hm
            cases hm
        | ok projection =>
            rw [hprojection] at hm
            cases hm
            exact Projection.square_of_ofMatrix hsquare (by decide) hprojection
  broken x fault hx hfault := by
    obtain ⟨plain, hexact, hsquare⟩ := exists_exactHessian s hx
    change s.hessian x = .error fault at hfault
    cases hmode : s.mode with
    | exact =>
        rw [hessian_of_exact hmode hexact] at hfault
        cases hfault
    | projected floor =>
        rw [hessian_of_projected hmode hexact] at hfault
        cases hprojection : Projection.ofMatrix plain floor with
        | error fault' =>
            rw [hprojection] at hfault
            cases hfault
            exact ⟨plain, ⟨s, floor, rfl, hmode, hexact⟩,
              Projection.breaksDown_of_ofMatrix hsquare (by decide) hprojection⟩
        | ok projection =>
            rw [hprojection] at hfault
            cases hfault

end Spring

theorem fitting [Kernel.Shaped α] (p : Problem α) : p.answers.Fitting p.Decomposes := by
  cases p with
  | quadratic q => exact quadratic_fitting q
  | rosenbrock r => exact rosenbrock_fitting r
  | saddle s => exact saddle_fitting s
  | spring s => exact spring_fitting s

end Problem

end Downhill
