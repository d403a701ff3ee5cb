import FusedKernel.Storage.Buffer
import FusedKernel.Storage.Grid

/-!
# Matrices on the device

A `StoredMatrix` pads its rows and its columns to whole blocks, and stores them in one of two
orders.  A `ConstantMatrix` is given by the value of its entries.  Only
`StorageOrder.position` turns a row and a column into an index of the storage.

Principal results: `StorageOrder.position_lt` and `StorageOrder.position_injective`
(positions stay inside the storage and never collide), `StoredMatrix.zeros_eq_ok`,
`StoredMatrix.size_image`.
-/

set_option autoImplicit false

namespace FusedKernel

/-- Whether a matrix is stored row after row or column after column. -/
inductive StorageOrder where
  | rowMajor
  | columnMajor
  deriving DecidableEq, Repr

namespace StorageOrder

/-- Index of a cell in a storage with these padded dimensions. -/
def position (order : StorageOrder) (paddedRows paddedColumns row column : Nat) : Nat :=
  match order with
  | rowMajor => row * paddedColumns + column
  | columnMajor => row + column * paddedRows

/-- Distance between consecutive rows (row major) or columns (column major). -/
def leadingDimension (order : StorageOrder) (paddedRows paddedColumns : Nat) : Nat :=
  match order with
  | rowMajor => paddedColumns
  | columnMajor => paddedRows

theorem position_lt (order : StorageOrder) {m n row column : Nat} (hr : row < m) (hc : column < n) :
    order.position m n row column < m * n := by
  cases order with
  | rowMajor => exact Grid.index_lt hr hc
  | columnMajor =>
    have h : column * m + row < n * m := Grid.index_lt hc hr
    rw [position, Nat.mul_comm m, Nat.add_comm]
    exact h

theorem position_injective (order : StorageOrder) {m n row column row' column' : Nat}
    (hr : row < m) (hc : column < n) (hr' : row' < m) (hc' : column' < n)
    (h : order.position m n row column = order.position m n row' column') :
    row = row' ∧ column = column' := by
  cases order with
  | rowMajor =>
    simp only [position] at h
    have hrow := congrArg (· / n) h
    have hcol := congrArg (· % n) h
    simp only [Grid.index_div hc, Grid.index_div hc', Grid.index_mod hc, Grid.index_mod hc']
      at hrow hcol
    exact ⟨hrow, hcol⟩
  | columnMajor =>
    simp only [position, Nat.add_comm row, Nat.add_comm row'] at h
    have hrow := congrArg (· % m) h
    have hcol := congrArg (· / m) h
    simp only [Grid.index_div hr, Grid.index_div hr', Grid.index_mod hr, Grid.index_mod hr']
      at hrow hcol
    exact ⟨hrow, hcol⟩

end StorageOrder

variable {p : Precision}

/-- A matrix with all entries equal. -/
structure ConstantMatrix (p : Precision) where
  name : String
  rows : Nat
  columns : Nat
  value : Element p
  deriving DecidableEq, Repr

/-- A matrix in whole blocks along both dimensions. -/
structure StoredMatrix (p : Precision) where
  name : String
  rows : Nat
  columns : Nat
  paddedRows : Nat
  paddedColumns : Nat
  order : StorageOrder
  storage : Array (Element p)
  /-- What was asked of the device when the matrix was made. -/
  buffer : Buffer
  paddedRows_eq : paddedRows = alignUp rows
  paddedColumns_eq : paddedColumns = alignUp columns
  size_storage : storage.size = paddedRows * paddedColumns
  buffer_eq : buffer = ⟨name, storage.size * p.byteSize⟩
  rows_fit : paddedRows < wordLimit
  columns_fit : paddedColumns < wordLimit
  storage_fits : storage.size * p.byteSize < allocationLimit
  deriving DecidableEq, Repr

namespace StoredMatrix

def paddedSize (m : StoredMatrix p) : Nat := m.paddedRows * m.paddedColumns

/-- Index of a cell in the storage. -/
def position (m : StoredMatrix p) (row column : Nat) : Nat :=
  m.order.position m.paddedRows m.paddedColumns row column

def isRowMajor (m : StoredMatrix p) : Bool := m.order == .rowMajor

/-- What to write into the buffer. -/
def image (m : StoredMatrix p) : ByteArray := byteImage m.storage

/-- Reads the matrix back, without the padding. -/
def toGrid (m : StoredMatrix p) : Grid (Element p) :=
  Grid.ofFn m.rows m.columns fun row column => m.storage[m.position row column]?.getD 0

theorem byteSize_buffer (m : StoredMatrix p) : m.buffer.byteSize = m.paddedSize * p.byteSize := by
  rw [m.buffer_eq, m.size_storage, paddedSize]

theorem size_image (m : StoredMatrix p) : m.image.size = m.buffer.byteSize := by
  rw [image, size_byteImage, m.buffer_eq]

theorem lt_paddedRows (m : StoredMatrix p) {row : Nat} (h : row < m.rows) : row < m.paddedRows :=
  m.paddedRows_eq ▸ Nat.lt_of_lt_of_le h (le_alignUp _)

theorem lt_paddedColumns (m : StoredMatrix p) {column : Nat} (h : column < m.columns) :
    column < m.paddedColumns :=
  m.paddedColumns_eq ▸ Nat.lt_of_lt_of_le h (le_alignUp _)

theorem position_lt (m : StoredMatrix p) {row column : Nat} (hr : row < m.rows)
    (hc : column < m.columns) : m.position row column < m.storage.size := by
  rw [m.size_storage]
  exact m.order.position_lt (m.lt_paddedRows hr) (m.lt_paddedColumns hc)

/-! ## Construction -/

/-- The matrix of zeros with these dimensions. -/
def zeros (name : String) (rows columns : Nat) (order : StorageOrder) :
    Except StorageError (StoredMatrix p) :=
  match hr : FusedKernel.paddedSize rows with
  | .error e => .error e
  | .ok paddedRows =>
    match hc : FusedKernel.paddedSize columns with
    | .error e => .error e
    | .ok paddedColumns =>
      match harea : mulSizes? paddedRows paddedColumns with
      | none => .error (.area paddedRows paddedColumns)
      | some area =>
        match hbytes : allocationSize p area with
        | .error e => .error e
        | .ok bytes =>
          .ok {
            name
            rows
            columns
            paddedRows
            paddedColumns
            order
            storage := Array.replicate area 0
            buffer := ⟨name, bytes⟩
            paddedRows_eq := (paddedSize_eq_ok_iff.1 hr).2
            paddedColumns_eq := (paddedSize_eq_ok_iff.1 hc).2
            size_storage := by rw [Array.size_replicate, (mulSizes?_eq_some_iff.1 harea).2]
            buffer_eq := buffer_replicate_zero name hbytes
            rows_fit := (paddedSize_eq_ok_iff.1 hr).2 ▸ (paddedSize_eq_ok_iff.1 hr).1
            columns_fit := (paddedSize_eq_ok_iff.1 hc).2 ▸ (paddedSize_eq_ok_iff.1 hc).1
            storage_fits := replicate_zero_fits hbytes }

/-- Stores the first `count` cells of a grid at their positions. -/
def storeCells (m : StoredMatrix p) (grid : Grid (Element p)) : Nat → Array (Element p)
  | 0 => m.storage
  | count + 1 =>
    (m.storeCells grid count).setIfInBounds
      (m.position (count / grid.columns) (count % grid.columns)) (grid.cells[count]?.getD 0)

@[simp] theorem size_storeCells (m : StoredMatrix p) (grid : Grid (Element p)) (count : Nat) :
    (m.storeCells grid count).size = m.storage.size := by
  induction count with
  | zero => rfl
  | succ count ih => rw [storeCells, Array.size_setIfInBounds, ih]

/-- Stores every cell of a grid at its position; the padding is left alone. -/
def overwrite (m : StoredMatrix p) (grid : Grid (Element p)) : StoredMatrix p :=
  { m with
    storage := m.storeCells grid grid.cells.size
    size_storage := by rw [size_storeCells]; exact m.size_storage
    buffer_eq := by rw [size_storeCells]; exact m.buffer_eq
    storage_fits := by rw [size_storeCells]; exact m.storage_fits }

/-- The matrix holding the cells of `grid`, surrounded by zero padding. -/
def ofGrid (name : String) (grid : Grid (Element p)) (order : StorageOrder) :
    Except StorageError (StoredMatrix p) :=
  match zeros name grid.rows grid.columns order with
  | .error e => .error e
  | .ok m => .ok (m.overwrite grid)

theorem zeros_eq_ok {name : String} {rows columns : Nat} {order : StorageOrder} {m : StoredMatrix p}
    (h : zeros name rows columns order = .ok m) :
    m.name = name ∧ m.rows = rows ∧ m.columns = columns ∧ m.order = order ∧
      m.storage = Array.replicate (alignUp rows * alignUp columns) 0 := by
  unfold zeros at h
  split at h
  · cases h
  rename_i paddedRows hr
  obtain ⟨_, rfl⟩ := paddedSize_eq_ok_iff.1 hr
  split at h
  · cases h
  rename_i paddedColumns hc
  obtain ⟨_, rfl⟩ := paddedSize_eq_ok_iff.1 hc
  split at h
  · cases h
  rename_i area harea
  obtain ⟨_, rfl⟩ := mulSizes?_eq_some_iff.1 harea
  split at h
  · cases h
  cases h
  exact ⟨rfl, rfl, rfl, rfl, rfl⟩

end StoredMatrix

end FusedKernel
