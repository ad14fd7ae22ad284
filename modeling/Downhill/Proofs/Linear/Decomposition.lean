import Downhill.Proofs.Linear.Shape

/-! # Shapes of the computed decompositions

A lower triangle is a staircase of columns, and every stage of the two decompositions keeps it one.
The rows that a rotation joins lie inside the matrix, so the basis of eigenvectors stays square.
-/

namespace Downhill

variable {α : Type}

/-! ## Staircases -/

/-- Columns of a lower triangle: each is one entry longer than the next, and the last has one. -/
def Staircase : List (Vec α) → Prop
  | [] => True
  | column :: rest => column.length = rest.length + 1 ∧ Staircase rest

theorem staircase_of_getElem {columns : List (Vec α)}
    (h : ∀ j (hj : j < columns.length), columns[j].length + j = columns.length) :
    Staircase columns := by
  induction columns with
  | nil => trivial
  | cons column rest ih =>
      refine ⟨h 0 (Nat.zero_lt_succ _), ih fun j hj => ?_⟩
      have hcolumn := h (j + 1) (by simpa using hj)
      simp only [List.getElem_cons_succ, List.length_cons] at hcolumn
      omega

theorem Matrix.length_lowerColumns (m : Matrix α) : m.lowerColumns.length = m.height := by
  simp [lowerColumns]

theorem Matrix.Square.staircase {m : Matrix α} {n : Nat} (h : m.Square n) :
    Staircase m.lowerColumns := by
  refine staircase_of_getElem fun j hj => ?_
  rw [m.length_lowerColumns] at hj ⊢
  have hrows : ∀ row ∈ m.rows.drop j, (row[j]?).isSome = true := by
    intro row hrow
    have hlength := h.length_row (List.mem_of_mem_drop hrow)
    rw [h.height] at hj
    simpa [hlength] using hj
  simp only [lowerColumns, List.getElem_map, List.getElem_range]
  rw [List.length_filterMap_eq_countP, List.countP_eq_length.mpr hrows, List.length_drop]
  have : j < m.rows.length := hj
  rw [Matrix.height]
  omega

theorem Staircase.map_map {columns : List (Vec α)} (h : Staircase columns) (f : α → α) :
    Staircase (columns.map fun column => column.map f) := by
  induction columns with
  | nil => trivial
  | cons column rest ih => exact ⟨by simpa using h.1, ih h.2⟩

variable [Scalar α]

/-! ## Triangular factors -/

namespace Cholesky

theorem eliminate_shape {column : Vec α} {columns : List (Vec α)} (h : Staircase columns)
    (hlength : column.length = columns.length) :
    Staircase (eliminate column columns) ∧ (eliminate column columns).length = columns.length := by
  fun_induction eliminate column columns with
  | case1 l column c rest ih =>
      obtain ⟨hc, hrest⟩ := h
      have hcolumn : column.length = rest.length := by simpa using hlength
      obtain ⟨hshape, hsame⟩ := ih hrest hcolumn
      refine ⟨⟨?_, hshape⟩, by simp [hsame]⟩
      simp [hc, hcolumn, hsame]
  | case2 => exact ⟨h, rfl⟩

theorem factorColumns_shape {n : Nat} {columns factor : List (Vec α)} (h : Staircase columns)
    (hn : columns.length = n) (hfactor : factorColumns n columns = some factor) :
    Staircase factor ∧ factor.length = n := by
  induction n generalizing columns factor with
  | zero =>
      obtain rfl : columns = [] := List.eq_nil_of_length_eq_zero hn
      cases hfactor
      exact ⟨trivial, rfl⟩
  | succ n ih =>
      match columns, h, hn with
      | (d :: below) :: rest, ⟨hcolumn, hrest⟩, hn =>
        have hbelow : below.length = rest.length := by simpa using hcolumn
        rw [factorColumns] at hfactor
        split at hfactor
        · simp only [Option.map_eq_some_iff] at hfactor
          obtain ⟨columns', hrec, rfl⟩ := hfactor
          have hcolumn : (below.map fun a => a / Scalar.sqrt d).length = rest.length := by
            simpa using hbelow
          obtain ⟨hshape, hlength⟩ := eliminate_shape hrest hcolumn
          have hn' : rest.length = n := by simpa using hn
          obtain ⟨hshape', hlength'⟩ := ih hshape (hlength.trans hn') hrec
          exact ⟨⟨by simp [hbelow, hn', hlength'], hshape'⟩, by simp [hlength']⟩
        · contradiction

theorem length_forward {columns : List (Vec α)} (h : Staircase columns) {b : Vec α}
    (hb : b.length = columns.length) : (forward columns b).length = columns.length := by
  fun_induction forward columns b with
  | case1 l below columns b rest c ih =>
      obtain ⟨hcolumn, hcolumns⟩ := h
      have hbelow : below.length = columns.length := by simpa using hcolumn
      have hrest : rest.length = columns.length := by simpa using hb
      simp [ih hcolumns (by simp [hbelow, hrest])]
  | case2 columns b hnone =>
      match columns, h, b, hb with
      | [], _, [], _ => rfl
      | (l :: below) :: columns, _, b :: rest, _ =>
        exact (hnone l below columns b rest rfl rfl).elim

theorem length_backward {columns : List (Vec α)} (h : Staircase columns) {b : Vec α}
    (hb : b.length = columns.length) : (backward columns b).length = columns.length := by
  fun_induction backward columns b with
  | case1 l below columns b rest solved ih =>
      have hrest : rest.length = columns.length := by simpa using hb
      simp [solved, ih h.2 hrest]
  | case2 columns b hnone =>
      match columns, h, b, hb with
      | [], _, [], _ => rfl
      | (l :: below) :: columns, _, b :: rest, _ =>
        exact (hnone l below columns b rest rfl rfl).elim

theorem length_solve {m : Matrix α} {n : Nat} (h : m.Square n) {factor : Cholesky α}
    (hfactor : factor? m = some factor) {b : Vec α} (hb : b.length = n) :
    (factor.solve b).length = n := by
  simp only [factor?, Option.map_eq_some_iff] at hfactor
  obtain ⟨columns, hcolumns, rfl⟩ := hfactor
  have hheight : m.lowerColumns.length = n := m.length_lowerColumns.trans h.height
  obtain ⟨hshape, hlength⟩ := factorColumns_shape h.staircase m.length_lowerColumns hcolumns
  rw [h.height] at hlength
  have hforward := length_forward hshape (hb.trans hlength.symm)
  exact (length_backward hshape hforward).trans hlength

end Cholesky

/-! ## The tridiagonal form -/

namespace Tridiagonal

theorem length_addTwice {columns : List (Vec α)} (h : Staircase columns) {axis p : Vec α}
    (haxis : axis.length = columns.length) (hp : p.length = columns.length) :
    (addTwice columns axis p).length = columns.length := by
  fun_induction addTwice columns axis p with
  | case1 s below columns a axis p rest ih =>
      obtain ⟨hcolumn, hcolumns⟩ := h
      have hbelow : below.length = columns.length := by simpa using hcolumn
      have hrest : rest.length = columns.length := by simpa using hp
      simp [ih hcolumns (by simpa using haxis) (by simp [hbelow, hrest])]
  | case2 columns axis p hnone =>
      match columns, h, axis, haxis, p, hp with
      | [], _, [], _, [], _ => rfl
      | (s :: below) :: columns, _, a :: axis, _, p :: rest, _ =>
        exact (hnone s below columns a axis p rest rfl rfl rfl).elim

theorem length_twiceTimes {columns : List (Vec α)} (h : Staircase columns) {axis : Vec α}
    (haxis : axis.length = columns.length) : (twiceTimes columns axis).length = columns.length := by
  match columns, h, axis, haxis with
  | [], _, [], _ => rfl
  | (s :: below) :: columns, ⟨hcolumn, hcolumns⟩, a :: axis, haxis =>
    have hbelow : below.length = columns.length := by simpa using hcolumn
    have hp : (below.map fun x => (2.0 * a) * x).length = columns.length := by simpa using hbelow
    simp [twiceTimes, length_addTwice hcolumns (by simpa using haxis) hp]

theorem addOuter_shape (t : α) {x : Vec α} (y : Vec α) {columns : List (Vec α)}
    (h : Staircase columns) (hx : x.length = columns.length) :
    Staircase (addOuter t x y columns) ∧ (addOuter t x y columns).length = columns.length := by
  fun_induction addOuter t x y columns with
  | case1 x xs y ys column columns ih =>
      obtain ⟨hcolumn, hcolumns⟩ := h
      have hxs : xs.length = columns.length := by simpa using hx
      obtain ⟨hshape, hsame⟩ := ih hcolumns hxs
      refine ⟨⟨?_, hshape⟩, by simp [hsame]⟩
      simp [hcolumn, hxs, hsame]
  | case2 => exact ⟨h, rfl⟩

theorem reflectBoth_shape {axis : Vec α} {lower : List (Vec α)} (h : Staircase lower)
    (haxis : axis.length = lower.length) :
    Staircase (reflectBoth axis lower) ∧ (reflectBoth axis lower).length = lower.length := by
  let p := twiceTimes lower axis
  have hp : p.length = lower.length := length_twiceTimes h haxis
  obtain ⟨h₁, hsame₁⟩ := addOuter_shape (-1.0) axis h hp
  obtain ⟨h₂, hsame₂⟩ := addOuter_shape (-1.0) p h₁ (haxis.trans hsame₁.symm)
  obtain ⟨h₃, hsame₃⟩ := addOuter_shape (Vec.inner axis p * 2.0) axis h₂
    (haxis.trans (hsame₂.trans hsame₁).symm)
  exact ⟨h₃, hsame₃.trans (hsame₂.trans hsame₁)⟩

theorem Reflection.length_axis (column : Vec α) :
    (Reflection.ofColumn column).axis.length = column.length := by
  cases column with
  | nil => rfl
  | cons a rest =>
      unfold Reflection.ofColumn
      dsimp only
      split <;> simp

/-- Reflections of shrinking vectors, the last of them of one entry. -/
def Cascade : List (Reflection α) → Prop
  | [] => True
  | r :: reflections => r.axis.length = reflections.length + 1 ∧ Cascade reflections

theorem reduce_shape {n : Nat} {columns : List (Vec α)} (h : Staircase columns)
    (hn : columns.length = n) :
    (reduce n columns).1.length = n ∧ (reduce n columns).2.length = n - 1 ∧
      Cascade (reduce n columns).2 := by
  induction n generalizing columns with
  | zero =>
      obtain rfl : columns = [] := List.eq_nil_of_length_eq_zero hn
      exact ⟨rfl, rfl, trivial⟩
  | succ n ih =>
      match columns, h, hn with
      | [d] :: rest, ⟨hcolumn, _⟩, hn =>
        obtain rfl : rest = [] := List.eq_nil_of_length_eq_zero (by simpa using hcolumn.symm)
        obtain rfl : n = 0 := by simpa using hn.symm
        exact ⟨rfl, rfl, trivial⟩
      | (d :: a :: below) :: rest, ⟨hcolumn, hrest⟩, hn =>
        have hrows : (a :: below).length = rest.length := by simpa using hcolumn
        have hn' : rest.length = n := by simpa using hn
        have haxis : (Reflection.ofColumn (a :: below)).axis.length = n :=
          (Reflection.length_axis _).trans (hrows.trans hn')
        -- Whether the reflection moves anything or not, the rest stays a staircase.
        have hnext : ∃ next, Staircase next ∧ next.length = n ∧
            (if (Reflection.ofColumn (a :: below)).moves then
              reflectBoth (Reflection.ofColumn (a :: below)).axis rest else rest) = next := by
          split
          · obtain ⟨hshape, hsame⟩ := reflectBoth_shape hrest (haxis.trans hn'.symm)
            exact ⟨_, hshape, hsame.trans hn', rfl⟩
          · exact ⟨rest, hrest, hn', rfl⟩
        obtain ⟨next, hshape, hlength, heq⟩ := hnext
        obtain ⟨hdiagonal, hreflections, hcascade⟩ := ih hshape hlength
        have hpos : 0 < n := by simp only [← hn', ← hrows, List.length_cons]; omega
        simp only [reduce, heq]
        refine ⟨by simp [hdiagonal], by simp [hreflections]; omega, ?_, hcascade⟩
        rw [haxis, hreflections]
        omega

theorem assemble_shape {reflections : List (Reflection α)} (h : Cascade reflections) :
    (assemble reflections).length = reflections.length + 1 ∧
      ∀ column ∈ assemble reflections, column.length = reflections.length + 1 := by
  induction reflections with
  | nil => simp [assemble]
  | cons r reflections ih =>
      obtain ⟨haxis, hcascade⟩ := h
      obtain ⟨hlength, hcolumns⟩ := ih hcascade
      refine ⟨by simp [assemble, hlength], fun column hcolumn => ?_⟩
      simp only [assemble, List.mem_cons, List.mem_map] at hcolumn
      rcases hcolumn with rfl | ⟨column, hmem, rfl⟩
      · simp [Reflection.apply, haxis]
      · simp [Reflection.apply, haxis, hcolumns column hmem]

/-- A diagonal of `n` entries and a basis of as many vectors in as many dimensions. -/
structure Sized (t : Tridiagonal α) (n : Nat) : Prop where
  diagonal : t.diagonal.length = n
  basis : t.basis.length = n
  column : ∀ column ∈ t.basis, column.length = n

theorem ofLowerColumns_sized {columns : List (Vec α)} {n : Nat} (h : Staircase columns)
    (hn : columns.length = n) (hpos : n ≠ 0) : (ofLowerColumns columns).Sized n := by
  obtain ⟨hdiagonal, hreflections, hcascade⟩ := reduce_shape h hn
  obtain ⟨hlength, hcolumns⟩ := assemble_shape hcascade
  have hsize : (reduce n columns).2.length + 1 = n := by omega
  rw [hsize] at hlength hcolumns
  rw [ofLowerColumns, hn]
  exact ⟨hdiagonal, hlength, hcolumns⟩

/-! ## Rotations -/

namespace Sized

variable {t : Tridiagonal α} {n : Nat} (h : t.Sized n)

include h

omit [Scalar α] in
theorem setDiagonal (i : Nat) (a : α) : (t.setDiagonal i a).Sized n :=
  ⟨by simpa [Tridiagonal.setDiagonal] using h.diagonal, h.basis, h.column⟩

omit [Scalar α] in
theorem setOffDiagonal (i : Nat) (a : α) : (t.setOffDiagonal i a).Sized n :=
  ⟨h.diagonal, h.basis, h.column⟩

omit [Scalar α] in
theorem length_getD {i : Nat} (hi : i < n) : (t.basis.getD i []).length = n := by
  have hbasis := h.basis
  rw [List.getD_eq_getElem?_getD, List.getElem?_eq_getElem (by omega)]
  exact h.column _ (List.getElem_mem _)

/-- A rotation of two columns that lie inside the basis. -/
theorem rotate {i : Nat} (hi : i + 1 < n) (c s : α) : (t.rotate i c s).Sized n := by
  have hx := h.length_getD (show i < n by omega)
  have hy := h.length_getD hi
  refine ⟨h.diagonal, by simpa [Tridiagonal.rotate] using h.basis, fun column hcolumn => ?_⟩
  simp only [Tridiagonal.rotate] at hcolumn
  rcases List.mem_or_eq_of_mem_set hcolumn with hcolumn | rfl
  · rcases List.mem_or_eq_of_mem_set hcolumn with hcolumn | rfl
    · exact h.column column hcolumn
    · rw [List.length_zipWith, hx, hy, Nat.min_self]
  · rw [List.length_zipWith, hx, hy, Nat.min_self]

theorem chase {count i : Nat} (hcount : i + count < n) (inner : Bool) (x y : α) :
    (t.chase count i inner x y).Sized n := by
  induction count generalizing t i inner x y with
  | zero => exact h
  | succ count ih =>
      unfold Tridiagonal.chase
      split
      · exact h
      · dsimp only
        generalize hentered : (if inner then t.setOffDiagonal (i - 1) _ else t) = entered
        have hsized : entered.Sized n := by
          subst hentered
          split
          · exact h.setOffDiagonal _ _
          · exact h
        have hpair (a b c : α) :
            (((entered.setDiagonal i a).setDiagonal (i + 1) b).setOffDiagonal i c).Sized n :=
          ((hsized.setDiagonal i a).setDiagonal (i + 1) b).setOffDiagonal i c
        cases count with
        | zero => exact (hpair _ _ _).rotate (by omega) _ _
        | succ rest =>
            refine ih (.rotate ?_ (by omega) _ _) (by omega) _ _ _
            exact (hpair _ _ _).setOffDiagonal (i + 1) _

theorem sweep {start e : Nat} (hstart : start ≤ e) (he : e < n) : (t.sweep start e).Sized n :=
  h.chase (by omega) _ _ _

theorem split {start : Nat} (hstart : start + 1 < n) {t' : Tridiagonal α}
    (hsplit : t.split start = .ok t') : t'.Sized n := by
  have hpair (a b : α) : ((t.setDiagonal start a).setDiagonal (start + 1) b).Sized n :=
    (h.setDiagonal start a).setDiagonal (start + 1) b
  unfold Tridiagonal.split at hsplit
  dsimp only at hsplit
  split at hsplit
  · split at hsplit
    · cases hsplit
      exact (hpair _ _).rotate hstart _ _
    · cases hsplit
      exact hpair _ _
  · contradiction

end Sized

/-! ## Blocks -/

theorem blockEnd_le (t : Tridiagonal α) (e : Nat) : t.blockEnd e ≤ e := by
  induction e with
  | zero => exact Nat.le_refl 0
  | succ k ih =>
      rw [blockEnd]
      split
      · exact Nat.le_refl _
      · exact Nat.le_succ_of_le ih

theorem blockStart_spec {t : Tridiagonal α} {n : Nat} (h : t.Sized n) (k : Nat) :
    (t.blockStart k).1 ≤ k ∧ (t.blockStart k).2.Sized n := by
  induction k with
  | zero => exact ⟨Nat.le_refl 0, h⟩
  | succ k ih =>
      rw [blockStart]
      split
      · exact ⟨Nat.le_refl _, h.setOffDiagonal _ _⟩
      · exact ⟨Nat.le_succ_of_le ih.1, ih.2⟩

/-- A block lies above the row that it is looked for from. -/
theorem block_spec {t : Tridiagonal α} {n : Nat} (h : t.Sized n) (e : Nat) :
    (t.block e).1 ≤ (t.block e).2.1 ∧ (t.block e).2.1 ≤ e ∧ (t.block e).2.2.Sized n := by
  have hend := t.blockEnd_le e
  unfold block
  cases hblock : t.blockEnd e with
  | zero => exact ⟨Nat.le_refl 0, Nat.zero_le e, h⟩
  | succ k =>
      rw [hblock] at hend
      obtain ⟨hstart, hsized⟩ := blockStart_spec h k
      exact ⟨Nat.le_succ_of_le hstart, hend, hsized⟩

theorem settle_sized {n rounds start e : Nat} {t t' : Tridiagonal α} (h : t.Sized n)
    (hstart : start ≤ e) (he : e < n) (hsettle : settle rounds start e t = .ok t') :
    t'.Sized n := by
  induction rounds generalizing start e t with
  | zero => contradiction
  | succ rounds ih =>
      rw [settle] at hsettle
      split at hsettle
      · cases hsettle
        exact h
      · split at hsettle
        · split at hsettle
          · contradiction
          · rename_i hpair t₁ hsplit
            obtain ⟨hbelow, hend, hsized⟩ := block_spec (h.split (by omega) hsplit) (e - 1)
            exact ih hsized hbelow (by omega) hsettle
        · dsimp only at hsettle
          have hrest {last : Nat} (hlast : last ≤ e)
              (hsettle : settle rounds ((t.sweep start e).block last).1
                ((t.sweep start e).block last).2.1 ((t.sweep start e).block last).2.2 = .ok t') :
              t'.Sized n := by
            obtain ⟨hbelow, hend, hsized⟩ := block_spec (h.sweep hstart he) last
            exact ih hsized hbelow (by omega) hsettle
          split at hsettle
          · exact hrest (Nat.sub_le e 1) hsettle
          · exact hrest (Nat.le_refl e) hsettle

end Tridiagonal

theorem Spectrum.compute_shape {m : Matrix α} {n rounds : Nat} (h : m.Square n) (hn : n ≠ 0)
    {spectrum : Spectrum α} (hcompute : compute rounds m = .ok spectrum) :
    spectrum.values.length = n ∧ spectrum.vectors.Square n := by
  have hheight : m.lowerColumns.length = n := m.length_lowerColumns.trans h.height
  unfold compute at hcompute
  dsimp only at hcompute
  generalize hlower : (if (largestAbs m.entries == 0.0) = true then m.lowerColumns else _) = lower
    at hcompute
  have hshape : Staircase lower ∧ lower.length = n := by
    subst hlower
    split
    · exact ⟨h.staircase, hheight⟩
    · exact ⟨h.staircase.map_map _, by simpa using hheight⟩
  have hsized := Tridiagonal.ofLowerColumns_sized hshape.1 hshape.2 hn
  have hlast : (Tridiagonal.ofLowerColumns lower).diagonal.length - 1 < n := by
    rw [hsized.diagonal]
    omega
  obtain ⟨hbelow, hend, hblock⟩ := Tridiagonal.block_spec hsized
    ((Tridiagonal.ofLowerColumns lower).diagonal.length - 1)
  split at hcompute
  · contradiction
  · rename_i t hsettle
    cases hcompute
    have hsettled := Tridiagonal.settle_sized hblock hbelow (by omega) hsettle
    have hbasis : (⟨t.basis⟩ : Matrix α).Square n := .of_rows hsettled.basis hsettled.column
    exact ⟨by simpa using hsettled.diagonal, hbasis.transpose⟩

/-! ## Double precision -/

instance : Kernel.Shaped Float where
  length_solve h hfactor hb := by
    obtain ⟨factor, hfound, rfl⟩ := Option.map_eq_some_iff.mp hfactor
    exact Cholesky.length_solve h hfound hb
  spectrum h hn hspectrum := Spectrum.compute_shape h hn hspectrum

end Downhill
