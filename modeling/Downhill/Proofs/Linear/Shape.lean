import Downhill.Linear.Projection

/-! # Shapes

Operations on vectors and matrices that fit have results that fit. So have the two dense problems,
and what is built on them: a linear system, and the projection of a spectrum.
-/

namespace Downhill

variable {α : Type}

/-! ## Square matrices -/

namespace Matrix

variable {m : Matrix α} {n : Nat}

/-- A matrix with `n` rows of `n` entries. -/
structure Square (m : Matrix α) (n : Nat) : Prop where
  isSquare : m.isSquare = true
  height : m.height = n

theorem Square.of_rows (hheight : m.height = n) (hrows : ∀ row ∈ m.rows, row.length = n) :
    m.Square n :=
  ⟨isSquare_of_rows hheight hrows, hheight⟩

theorem Square.hasWidth (h : m.Square n) : m.hasWidth n = true := h.height ▸ h.isSquare

theorem Square.length_row (h : m.Square n) {row : Vec α} (hrow : row ∈ m.rows) : row.length = n :=
  h.height ▸ length_of_isSquare h.isSquare row hrow

theorem Square.transpose (h : m.Square n) : m.transpose.Square n :=
  .of_rows (h.height ▸ length_columns h.isSquare)
    (h.height ▸ length_of_mem_columns h.isSquare)

end Matrix

variable [Scalar α]

/-! ## Vectors -/

namespace Vec

variable {x y : Vec α}

@[simp] theorem length_neg (x : Vec α) : x.neg.length = x.length := by simp [neg]

omit [Scalar α] in
theorem exists_zip (f : α → α → α) (h : x.length = y.length) :
    ∃ z, zip f x y = .ok z ∧ z.length = x.length :=
  ⟨List.zipWith f x y, by rw [zip, if_pos h], by simp [h]⟩

theorem exists_sub (h : x.length = y.length) : ∃ z, x.sub y = .ok z ∧ z.length = x.length :=
  exists_zip _ h

theorem exists_move (t : α) (h : x.length = y.length) :
    ∃ z, x.move t y = .ok z ∧ z.length = x.length :=
  exists_zip _ h

theorem dot_of_length (h : x.length = y.length) : x.dot y = .ok (inner x y) := by
  rw [dot, if_pos h]

end Vec

/-! ## Arithmetic of matrices -/

namespace Matrix

variable {m a b : Matrix α} {n : Nat}

theorem Square.mulVec (h : m.Square n) {x : Vec α} (hx : x.length = n) :
    ∃ z, m.mulVec x = .ok z ∧ z.length = n := by
  refine ⟨m.rows.map fun row => rowTimes row x, ?_, ?_⟩
  · rw [Matrix.mulVec, hx, if_pos h.hasWidth]
  · rw [List.length_map]
    exact h.height

theorem Square.mul (h : a.Square n) (h' : b.Square n) : ∃ c, a.mul b = .ok c ∧ c.Square n := by
  refine ⟨_, by rw [Matrix.mul, h'.height, if_pos h.hasWidth], .of_rows ?_ fun row hrow => ?_⟩
  · rw [Matrix.height, List.length_map]
    exact h.height
  · obtain ⟨_, -, rfl⟩ := List.mem_map.mp hrow
    rw [List.length_map, length_columns h'.isSquare, h'.height]

theorem Square.symmetrise (h : m.Square n) : m.symmetrise.Square n :=
  ⟨isSquare_symmetrise h.isSquare, (height_symmetrise h.isSquare).trans h.height⟩

theorem diagonal_square (d : Vec α) : (diagonal d).Square d.length :=
  ⟨isSquare_diagonal d, height_diagonal d⟩

/-- A square matrix and as many values as it has columns fit together. -/
theorem Square.rebuild (h : m.Square n) {values : Vec α} (hvalues : values.length = n) :
    ∃ rebuilt, Projection.rebuild values m = .ok rebuilt ∧ rebuilt.Square n := by
  have hdiagonal : (diagonal values).Square n := hvalues ▸ diagonal_square values
  obtain ⟨scaled, hscaled, hsquare⟩ := h.mul hdiagonal
  obtain ⟨product, hproduct, hfits⟩ := hsquare.mul h.transpose
  refine ⟨product.symmetrise, ?_, hfits.symmetrise⟩
  simp only [Projection.rebuild, hscaled, hproduct, bind, Except.bind, pure, Except.pure]

end Matrix

/-! ## Decompositions -/

/-- The answers of the two dense problems fit the matrices they belong to. -/
class Kernel.Shaped (α : Type) [Scalar α] [Kernel α] : Prop where
  length_solve {m : Matrix α} {n : Nat} {solve : Vec α → Vec α} {b : Vec α} :
    m.Square n → Kernel.factorise m = some solve → b.length = n → (solve b).length = n
  spectrum {m : Matrix α} {n : Nat} {spectrum : Spectrum α} :
    m.Square n → n ≠ 0 → Kernel.spectrum m = .ok spectrum →
      spectrum.values.length = n ∧ spectrum.vectors.Square n

section Breakdown

variable [Kernel α] {m : Matrix α} {n : Nat}

omit [Scalar α]

/-- The decomposition of a square matrix that is not empty ends with a fault. -/
structure Matrix.BreaksDown (m : Matrix α) (fault : Fault) : Prop where
  square : m.isSquare = true
  nonempty : m.height ≠ 0
  spectrum : Kernel.spectrum m = .error fault

theorem Matrix.Square.exists_solver (h : m.Square n) : ∃ solver, m.solver? = .ok solver :=
  ⟨_, by rw [Matrix.solver?, if_pos h.isSquare]⟩

theorem Matrix.Square.spectrum_eq (h : m.Square n) (hn : n ≠ 0) :
    m.spectrum = Kernel.spectrum m := by
  have hheight : m.height ≠ 0 := h.height ▸ hn
  rw [Matrix.spectrum, if_pos (by simp [h.isSquare, hheight])]

theorem Matrix.Square.breaksDown (h : m.Square n) (hn : n ≠ 0) {fault : Fault}
    (hfault : m.spectrum = .error fault) : m.BreaksDown fault :=
  ⟨h.isSquare, h.height ▸ hn, h.spectrum_eq hn ▸ hfault⟩

end Breakdown

theorem Matrix.length_of_solver [Kernel α] [Kernel.Shaped α] {m : Matrix α}
    {solve : Vec α → Except Fault (Vec α)} (hsolver : m.solver? = .ok (some solve)) {b z : Vec α}
    (hz : solve b = .ok z) : z.length = b.length := by
  have hsquare := isSquare_of_solver? hsolver
  rw [Matrix.solver?, if_pos hsquare] at hsolver
  cases hfactor : Kernel.factorise m with
  | none => simp [hfactor] at hsolver
  | some solve' =>
      simp only [hfactor, Option.map_some, Except.ok.injEq, Option.some.injEq] at hsolver
      subst hsolver
      dsimp only at hz
      split at hz
      · rename_i hb
        cases hz
        exact (Kernel.Shaped.length_solve ⟨hsquare, rfl⟩ hfactor hb).trans hb.symm
      · contradiction

section Shaped

variable [Kernel α] {m : Matrix α} {n : Nat} (h : m.Square n)

include h

omit [Scalar α] in
/-- A solver answers every right-hand side that fits. -/
theorem Matrix.Square.exists_solution {solve : Vec α → Except Fault (Vec α)}
    (hsolver : m.solver? = .ok (some solve)) {b : Vec α} (hb : b.length = n) :
    ∃ z, solve b = .ok z := by
  rw [Matrix.solver?, if_pos h.isSquare] at hsolver
  cases hfactor : Kernel.factorise m with
  | none => simp [hfactor] at hsolver
  | some solve' =>
      simp only [hfactor, Option.map_some, Except.ok.injEq, Option.some.injEq] at hsolver
      subst hsolver
      exact ⟨solve' b, if_pos (hb.trans h.height.symm)⟩

variable [Kernel.Shaped α]

/-- Once a matrix is decomposed, its projection cannot fail. -/
theorem Projection.exists_of_spectrum (hn : n ≠ 0) {spectrum : Spectrum α}
    (hspectrum : m.spectrum = .ok spectrum) (floor : α) :
    ∃ projection, ofMatrix m floor = .ok projection ∧ projection.matrix.Square n := by
  obtain ⟨hvalues, hvectors⟩ := Kernel.Shaped.spectrum h hn (h.spectrum_eq hn ▸ hspectrum)
  have hraised : (spectrum.values.map fun value =>
      if value < floor then floor else value).length = n := by simpa using hvalues
  obtain ⟨rebuilt, hrebuilt, hsquare⟩ := hvectors.rebuild hraised
  have hprojection : ofMatrix m floor = .ok ⟨rebuilt, smallest spectrum.values,
      spectrum.values.countP fun value => decide (value < floor)⟩ := by
    simp only [ofMatrix, hspectrum, hrebuilt, bind, Except.bind, pure, Except.pure]
  exact ⟨_, hprojection, hsquare⟩

theorem Projection.square_of_ofMatrix (hn : n ≠ 0) {floor : α} {projection : Projection α}
    (hprojection : ofMatrix m floor = .ok projection) : projection.matrix.Square n := by
  obtain ⟨spectrum, hspectrum⟩ := exists_spectrum hprojection
  obtain ⟨found, hfound, hsquare⟩ := exists_of_spectrum h hn hspectrum floor
  cases hfound.symm.trans hprojection
  exact hsquare

theorem Projection.breaksDown_of_ofMatrix (hn : n ≠ 0) {floor : α} {fault : Fault}
    (hfault : ofMatrix m floor = .error fault) : m.BreaksDown fault := by
  cases hspectrum : m.spectrum with
  | error fault' =>
      simp only [ofMatrix, hspectrum, bind, Except.bind] at hfault
      cases hfault
      exact h.breaksDown hn hspectrum
  | ok spectrum =>
      obtain ⟨found, hfound, -⟩ := exists_of_spectrum h hn hspectrum floor
      cases hfound.symm.trans hfault

end Shaped

end Downhill
