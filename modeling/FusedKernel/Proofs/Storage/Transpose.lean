import FusedKernel.Proofs.Storage.Contents

/-!
# The transpose of a stored matrix

The storage of a matrix in one order is the storage of its transpose in the other order.  Nothing
has to be moved to transpose a matrix on the device: it is enough to exchange the dimensions and
to read the other way.

* `Grid.transpose` — the grid with rows and columns exchanged.
* `StoredMatrix.transpose` — the same storage, read the other way.

Principal results: `Holds.transpose` — the storage of a grid holds the transpose of the grid, read
the other way; `ofGrid_transpose` — a matrix and the transpose in the other order are alike on the
device.
-/

set_option autoImplicit false

namespace FusedKernel

namespace Grid

variable {α : Type}

/-- The grid with rows and columns exchanged. -/
def transpose (g : Grid α) : Grid α where
  rows := g.columns
  columns := g.rows
  cells := Array.ofFn fun k : Fin (g.columns * g.rows) =>
    have hcell : k % g.rows * g.columns + k / g.rows < g.cells.size := by
      obtain ⟨hcolumn, hrow⟩ := coordinates_lt k.isLt
      rw [g.size_cells]
      exact index_lt hrow hcolumn
    g.cells[k % g.rows * g.columns + k / g.rows]
  size_cells := Array.size_ofFn

theorem get?_transpose (g : Grid α) (row column : Nat) :
    g.transpose.get? row column = g.get? column row := by
  by_cases hcell : column < g.rows ∧ row < g.columns
  · obtain ⟨hcolumn, hrow⟩ := hcell
    have hindex : row * g.rows + column < g.columns * g.rows := index_lt hrow hcolumn
    simp only [get?, transpose, hcolumn, hrow, if_true, Array.getElem?_ofFn, hindex, dif_pos]
    simp only [index_div hcolumn, index_mod hcolumn]
    exact (Array.getElem?_eq_getElem _).symm
  · rw [(get?_eq_none_iff g column row).2 hcell]
    exact (get?_eq_none_iff g.transpose row column).2 fun h => hcell ⟨h.2, h.1⟩

end Grid

namespace StorageOrder

/-- The other order. -/
def opposite : StorageOrder → StorageOrder
  | rowMajor => columnMajor
  | columnMajor => rowMajor

/-- The other order puts the mirrored cell at the same place. -/
theorem position_opposite (order : StorageOrder) (m n row column : Nat) :
    order.opposite.position n m column row = order.position m n row column := by
  cases order with
  | rowMajor => exact Nat.add_comm _ _
  | columnMajor => exact Nat.add_comm _ _

end StorageOrder

variable {p : Precision}

namespace StoredMatrix

/-- The same storage, read the other way. -/
def transpose (m : StoredMatrix p) : StoredMatrix p :=
  { m with
    rows := m.columns
    columns := m.rows
    paddedRows := m.paddedColumns
    paddedColumns := m.paddedRows
    order := m.order.opposite
    paddedRows_eq := m.paddedColumns_eq
    paddedColumns_eq := m.paddedRows_eq
    size_storage := m.size_storage.trans (Nat.mul_comm _ _)
    rows_fit := m.columns_fit
    columns_fit := m.rows_fit }

theorem position_transpose (m : StoredMatrix p) (row column : Nat) :
    m.transpose.position column row = m.position row column :=
  m.order.position_opposite _ _ _ _

theorem paddedSize_transpose (m : StoredMatrix p) : m.transpose.paddedSize = m.paddedSize :=
  Nat.mul_comm _ _

/-- Read the other way, what holds a grid holds its transpose. -/
theorem Holds.transpose {m : StoredMatrix p} {grid : Grid (Element p)} (h : m.Holds grid) :
    m.transpose.Holds grid.transpose where
  rows := h.columns
  columns := h.rows
  cell := by
    intro row hr column hc
    rw [m.position_transpose column row, grid.get?_transpose]
    exact h.cell column hc row hr
  padding := by
    intro index hindex hfree
    rw [paddedSize_transpose] at hindex
    refine h.padding index hindex fun row hr column hc => ?_
    rw [← m.position_transpose]
    exact hfree column hc row hr

/-- Whether a matrix can be made depends on its sizes alone, and not on which of them is which. -/
theorem exists_ofGrid_transpose_iff {name name' : String} {grid : Grid (Element p)}
    {order order' : StorageOrder} :
    (∃ m, ofGrid name' grid.transpose order' = .ok m) ↔
      ∃ m, ofGrid name grid order = .ok m := by
  rw [exists_ofGrid_iff, exists_ofGrid_iff, exists_zeros_iff, exists_zeros_iff]
  show (alignUp grid.columns < wordLimit ∧ alignUp grid.rows < wordLimit ∧
    alignUp grid.columns * alignUp grid.rows * p.byteSize < allocationLimit) ↔ _
  rw [Nat.mul_comm (alignUp grid.columns)]
  exact and_left_comm

/-- **A matrix and its transpose in the other order are alike on the device.**  One can be made
exactly if the other can.  They have the same memory image in buffers of the same size, with the
padded dimensions exchanged, and exactly one of them is stored row after row. -/
theorem ofGrid_transpose (name name' : String) (grid : Grid (Element p)) (order : StorageOrder) :
    ((∃ m, ofGrid name grid order = .ok m) ↔
      ∃ m, ofGrid name' grid.transpose order.opposite = .ok m) ∧
    ∀ m m', ofGrid name grid order = .ok m →
      ofGrid name' grid.transpose order.opposite = .ok m' →
        m'.image = m.image ∧ m'.buffer.byteSize = m.buffer.byteSize ∧
          m'.paddedRows = m.paddedColumns ∧ m'.paddedColumns = m.paddedRows ∧
          m'.isRowMajor = !m.isRowMajor := by
  refine ⟨exists_ofGrid_transpose_iff.symm, fun m m' hm hm' => ?_⟩
  obtain ⟨horder, hholds⟩ := holds_ofGrid hm
  obtain ⟨horder', hholds'⟩ := holds_ofGrid hm'
  subst horder
  have hstorage : m'.storage = m.transpose.storage := hholds'.storage_eq hholds.transpose horder'
  have himage : m'.image = m.image := by
    rw [image, hstorage]
    rfl
  refine ⟨himage, ?_, ?_, ?_, ?_⟩
  · rw [← size_image, ← size_image, himage]
  · rw [m'.paddedRows_eq, m.paddedColumns_eq, hholds'.rows, hholds.columns]
    rfl
  · rw [m'.paddedColumns_eq, m.paddedRows_eq, hholds'.columns, hholds.rows]
    rfl
  · rw [isRowMajor, isRowMajor, horder']
    cases m.order <;> rfl

/-- Two rows of 130 cells, row after row, and 130 rows of two cells, column after column. -/
theorem ofGrid_transpose_payloads :
    ∃ m m', ofGrid "a" payloads .rowMajor = .ok m ∧
      ofGrid "b" payloads.transpose .columnMajor = .ok m' ∧
      m'.image = m.image ∧ m'.paddedRows = 256 ∧ m'.paddedColumns = 128 := by
  obtain ⟨hexists, halike⟩ := ofGrid_transpose "a" "b" payloads .rowMajor
  obtain ⟨m, hm⟩ := exists_ofGrid_payloads .rowMajor
  obtain ⟨m', hm'⟩ := hexists.1 ⟨m, hm⟩
  obtain ⟨himage, _, hrows, hcolumns, _⟩ := halike m m' hm hm'
  obtain ⟨_, hholds⟩ := holds_ofGrid hm
  refine ⟨m, m', hm, hm', himage, ?_, ?_⟩
  · rw [hrows, m.paddedColumns_eq, hholds.columns]
    rfl
  · rw [hcolumns, m.paddedRows_eq, hholds.rows]
    rfl

end StoredMatrix

end FusedKernel
