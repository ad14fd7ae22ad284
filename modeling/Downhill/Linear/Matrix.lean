import Downhill.Linear.Vec

/-! # Matrices

A matrix is the list of its rows, all of one length.
-/

namespace Downhill

structure Matrix (α : Type) where
  rows : List (Vec α)
  deriving DecidableEq, Repr

namespace Matrix

/-! ## Shape -/

section Shape

variable {α : Type}

def height (m : Matrix α) : Nat := m.rows.length

def width (m : Matrix α) : Nat := (m.rows.head?.map List.length).getD 0

/-- Whether every row has `n` entries; a matrix without rows has no columns either. -/
def hasWidth (m : Matrix α) (n : Nat) : Bool :=
  match m.rows with
  | [] => n == 0
  | rows => rows.all fun row => row.length == n

def isSquare (m : Matrix α) : Bool := m.hasWidth m.height

/-- The columns from left to right. -/
def columns (m : Matrix α) : List (Vec α) :=
  (List.range m.width).map fun j => m.rows.filterMap fun row => row[j]?

def transpose (m : Matrix α) : Matrix α := ⟨m.columns⟩

/-- The columns of the lower triangle, each from the diagonal down. -/
def lowerColumns (m : Matrix α) : List (Vec α) :=
  (List.range m.height).map fun j => (m.rows.drop j).filterMap fun row => row[j]?

/-- All entries, column by column. -/
def entries (m : Matrix α) : List α := m.columns.flatten

theorem length_of_isSquare {m : Matrix α} (h : m.isSquare = true) :
    ∀ row ∈ m.rows, row.length = m.height := by
  intro row hrow
  cases hm : m.rows with
  | nil => simp [hm] at hrow
  | cons first rest =>
      simp only [isSquare, hasWidth, hm, List.all_eq_true, beq_iff_eq] at h
      exact h row (hm ▸ hrow)

theorem width_of_isSquare {m : Matrix α} (h : m.isSquare = true) : m.width = m.height := by
  cases hm : m.rows with
  | nil => simp [width, height, hm]
  | cons first rest =>
      have hfirst := length_of_isSquare h first (by simp [hm])
      simp [width, hm, hfirst]

theorem length_of_mem_columns {m : Matrix α} (h : m.isSquare = true) :
    ∀ column ∈ m.columns, column.length = m.height := by
  intro column hcolumn
  simp only [columns, List.mem_map, List.mem_range] at hcolumn
  obtain ⟨j, hj, rfl⟩ := hcolumn
  rw [width_of_isSquare h] at hj
  rw [List.length_filterMap_eq_countP]
  refine (List.countP_eq_length.mpr fun row hrow => ?_).trans rfl
  simpa [length_of_isSquare h row hrow] using hj

theorem length_columns {m : Matrix α} (h : m.isSquare = true) :
    m.columns.length = m.height := by
  simp [columns, width_of_isSquare h]

theorem isSquare_of_rows {m : Matrix α} {n : Nat} (hheight : m.height = n)
    (hrows : ∀ row ∈ m.rows, row.length = n) : m.isSquare = true := by
  cases hm : m.rows with
  | nil => simp [isSquare, hasWidth, height, hm]
  | cons first rest =>
      simp only [isSquare, hasWidth, hm, List.all_eq_true, beq_iff_eq, hheight]
      exact fun row hrow => hrows row (hm ▸ hrow)

end Shape

/-! ## Arithmetic -/

variable {α : Type} [Scalar α]

/-- A row times a vector, accumulated from the first column to the last. -/
def rowTimes : Vec α → Vec α → α
  | a :: row, v :: x => (row.zip x).foldl (fun y p => p.1 * p.2 + y) (a * v)
  | _, _ => 0.0

def mulVec (m : Matrix α) (x : Vec α) : Except Fault (Vec α) :=
  if m.hasWidth x.length then .ok (m.rows.map fun row => rowTimes row x) else .error .sizes

/-- The product of two matrices, column of the right factor by column. -/
def mul (a b : Matrix α) : Except Fault (Matrix α) :=
  if a.hasWidth b.height then
    let columns := b.columns
    .ok ⟨a.rows.map fun row => columns.map fun column => rowTimes row column⟩
  else .error .sizes

/-- The mean of a square matrix and its transpose. -/
def symmetrise (m : Matrix α) : Matrix α :=
  ⟨List.zipWith (List.zipWith fun a b => (a + b) * 0.5) m.rows m.transpose.rows⟩

def diagonal (d : Vec α) : Matrix α :=
  ⟨d.mapIdx fun i a => (List.replicate d.length 0.0).set i a⟩

/-- Add `delta` to every entry of the diagonal. -/
def shift (m : Matrix α) (delta : α) : Matrix α :=
  ⟨m.rows.mapIdx fun i row => row.modify i fun a => a + delta⟩

/-! ## Shape of the results -/

theorem height_symmetrise {m : Matrix α} (h : m.isSquare = true) :
    m.symmetrise.height = m.height := by
  have hcolumns := length_columns h
  simp only [height] at hcolumns
  simp [height, symmetrise, transpose, hcolumns]

theorem isSquare_symmetrise {m : Matrix α} (h : m.isSquare = true) :
    m.symmetrise.isSquare = true := by
  refine isSquare_of_rows (height_symmetrise h) fun row hrow => ?_
  simp only [symmetrise, transpose, List.mem_iff_getElem, List.length_zipWith,
    List.getElem_zipWith] at hrow
  obtain ⟨i, hi, rfl⟩ := hrow
  rw [List.length_zipWith, length_of_isSquare h _ (List.getElem_mem _),
    length_of_mem_columns h _ (List.getElem_mem _), Nat.min_self]

theorem height_shift (m : Matrix α) (delta : α) : (m.shift delta).height = m.height := by
  simp [height, shift]

theorem isSquare_shift {m : Matrix α} (h : m.isSquare = true) (delta : α) :
    (m.shift delta).isSquare = true := by
  refine isSquare_of_rows (height_shift m delta) fun row hrow => ?_
  simp only [shift, List.mem_mapIdx] at hrow
  obtain ⟨i, hi, rfl⟩ := hrow
  rw [List.length_modify, length_of_isSquare h _ (List.getElem_mem _)]

theorem height_diagonal (d : Vec α) : (diagonal d).height = d.length := by
  simp [height, diagonal]

theorem isSquare_diagonal (d : Vec α) : (diagonal d).isSquare = true := by
  refine isSquare_of_rows (height_diagonal d) fun row hrow => ?_
  simp only [diagonal, List.mem_mapIdx] at hrow
  obtain ⟨i, hi, rfl⟩ := hrow
  simp

end Matrix

end Downhill
