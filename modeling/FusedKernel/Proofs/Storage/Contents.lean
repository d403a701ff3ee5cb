import FusedKernel.Proofs.Storage.Capacity

/-!
# What the storage of a matrix holds

A matrix made from a grid holds each cell at its position, and zeros in between.  Positions are
distinct and inside the storage, so no cell is overwritten and no cell meets the padding, whatever
the dimensions and the order of storage.

* `StoredMatrix.Holds` — a storage with the cells of a grid at their positions, zeros elsewhere.
* `StoredMatrix.getElem?_storeCells_position`, `StoredMatrix.getElem?_storeCells_of_ne` — the
  storage after a number of cells have been stored.
* `getElem?_byteImage` — the bytes of an element in a memory image.

Principal results: `StoredMatrix.holds_ofGrid`, `StoredMatrix.ofGrid_readBack`.
-/

set_option autoImplicit false

namespace FusedKernel

variable {p : Precision}

/-! ## Bytes -/

/-- The bytes of an element are the digits of its bit pattern to the base 256. -/
theorem Element.byte_eq (x : Element p) (k : Nat) : x.byte k = UInt8.ofNat (x.toNat / 256 ^ k) := by
  rw [← UInt8.toNat_inj]
  simp [byte, Nat.shiftRight_eq_div_pow, pow_mul]

theorem getElem?_flatMap_bytes (elements : List (Element p)) (index : Nat) {k : Nat}
    (hk : k < p.byteSize) :
    (elements.flatMap Element.bytes)[index * p.byteSize + k]? =
      elements[index]?.map fun x => x.byte k := by
  induction elements generalizing index with
  | nil => simp
  | cons x elements ih =>
    rw [List.flatMap_cons]
    cases index with
    | zero =>
      rw [List.getElem?_append_left (by simpa using hk)]
      simp [Element.getElem?_bytes x hk]
    | succ index =>
      have hskip : (index + 1) * p.byteSize + k = x.bytes.length + (index * p.byteSize + k) := by
        rw [Element.bytes_length, Nat.succ_mul]
        omega
      rw [hskip, List.getElem?_append_right (Nat.le_add_right _ _), Nat.add_sub_cancel_left, ih]
      rfl

theorem getElem?_byteImage (elements : Array (Element p)) (index : Nat) {k : Nat}
    (hk : k < p.byteSize) :
    (byteImage elements).data[index * p.byteSize + k]? =
      elements[index]?.map fun x => x.byte k := by
  rw [← Array.getElem?_toList, toList_byteImage, getElem?_flatMap_bytes _ _ hk,
    Array.getElem?_toList]

namespace StoredMatrix

/-! ## Storing cells -/

theorem position_injective (m : StoredMatrix p) {row column row' column' : Nat}
    (hr : row < m.rows) (hc : column < m.columns) (hr' : row' < m.rows) (hc' : column' < m.columns)
    (h : m.position row column = m.position row' column') : row = row' ∧ column = column' :=
  m.order.position_injective (m.lt_paddedRows hr) (m.lt_paddedColumns hc) (m.lt_paddedRows hr')
    (m.lt_paddedColumns hc') h

/-- The storage of a matrix has the cells of a grid at their positions, and zeros elsewhere. -/
structure Holds (m : StoredMatrix p) (grid : Grid (Element p)) : Prop where
  rows : m.rows = grid.rows
  columns : m.columns = grid.columns
  cell : ∀ row < grid.rows, ∀ column < grid.columns,
    m.storage[m.position row column]? = grid.get? row column
  padding : ∀ index < m.paddedSize,
    (∀ row < grid.rows, ∀ column < grid.columns, m.position row column ≠ index) →
      m.storage[index]? = some 0

/-- What is no position of a cell, storing cells leaves alone. -/
theorem getElem?_storeCells_of_ne (m : StoredMatrix p) (grid : Grid (Element p)) {count index : Nat}
    (h : ∀ k < count, m.position (k / grid.columns) (k % grid.columns) ≠ index) :
    (m.storeCells grid count)[index]? = m.storage[index]? := by
  induction count with
  | zero => rfl
  | succ count ih =>
    rw [storeCells, Array.getElem?_setIfInBounds_ne (h count (Nat.lt_succ_self _))]
    exact ih fun k hk => h k (Nat.lt_succ_of_lt hk)

/-- A cell that has been stored stays: those stored after it have other positions. -/
theorem getElem?_storeCells_position {m : StoredMatrix p} {grid : Grid (Element p)}
    (hrows : m.rows = grid.rows) (hcolumns : m.columns = grid.columns) {count k : Nat}
    (hcount : count ≤ grid.cells.size) (hk : k < count) :
    (m.storeCells grid count)[m.position (k / grid.columns) (k % grid.columns)]? =
      grid.cells[k]? := by
  have hcoordinates : ∀ i < grid.cells.size,
      i / grid.columns < m.rows ∧ i % grid.columns < m.columns := by
    intro i hi
    rw [hrows, hcolumns]
    exact Grid.coordinates_lt (grid.size_cells ▸ hi)
  induction count with
  | zero => omega
  | succ count ih =>
    have hlast := hcoordinates count (by omega)
    rw [storeCells]
    rcases Nat.lt_succ_iff_lt_or_eq.1 hk with hk | rfl
    · -- The cell stored last has another number, hence other coordinates and another position.
      have hcell := hcoordinates k (by omega)
      rw [Array.getElem?_setIfInBounds_ne, ih (by omega) hk]
      intro heq
      obtain ⟨hdiv, hmod⟩ := m.position_injective hlast.1 hlast.2 hcell.1 hcell.2 heq
      have hsame : count = k := by
        rw [← Nat.div_add_mod count grid.columns, hdiv, hmod, Nat.div_add_mod]
      omega
    · rw [Array.getElem?_setIfInBounds_self_of_lt]
      · rw [Array.getElem?_eq_getElem (by omega)]
        rfl
      · rw [size_storeCells]
        exact m.position_lt hlast.1 hlast.2

/-- **A matrix made from a grid holds it.** -/
theorem holds_ofGrid {name : String} {grid : Grid (Element p)} {order : StorageOrder}
    {m : StoredMatrix p} (h : ofGrid name grid order = .ok m) : m.order = order ∧ m.Holds grid := by
  unfold ofGrid at h
  split at h
  · cases h
  rename_i empty hempty
  cases h
  obtain ⟨_, hrows, hcolumns, horder, hstorage⟩ := zeros_eq_ok hempty
  refine ⟨horder, hrows, hcolumns, ?_, ?_⟩
  · intro row hr column hc
    have hstored := getElem?_storeCells_position hrows hcolumns (Nat.le_refl _)
      (grid.size_cells ▸ Grid.index_lt hr hc)
    rw [Grid.index_div hc, Grid.index_mod hc] at hstored
    rw [Grid.get?, if_pos hc]
    exact hstored
  · intro index hindex hpadding
    have huntouched : (empty.storeCells grid grid.cells.size)[index]? = empty.storage[index]? := by
      refine getElem?_storeCells_of_ne empty grid fun k hk => ?_
      obtain ⟨hdiv, hmod⟩ := Grid.coordinates_lt (grid.size_cells ▸ hk)
      exact hpadding _ hdiv _ hmod
    have hsize : index < alignUp grid.rows * alignUp grid.columns := by
      rw [← hrows, ← hcolumns, ← empty.paddedRows_eq, ← empty.paddedColumns_eq]
      exact hindex
    show (empty.storeCells grid grid.cells.size)[index]? = some 0
    rw [huntouched, hstorage, Array.getElem?_replicate, if_pos hsize]

theorem position_ofGrid {name : String} {grid : Grid (Element p)} {order : StorageOrder}
    {m : StoredMatrix p} (h : ofGrid name grid order = .ok m) (row column : Nat) :
    m.position row column =
      order.position (alignUp grid.rows) (alignUp grid.columns) row column := by
  obtain ⟨rfl, hholds⟩ := holds_ofGrid h
  rw [position, m.paddedRows_eq, m.paddedColumns_eq, hholds.rows, hholds.columns]

theorem paddedSize_ofGrid {name : String} {grid : Grid (Element p)} {order : StorageOrder}
    {m : StoredMatrix p} (h : ofGrid name grid order = .ok m) :
    m.paddedSize = alignUp grid.rows * alignUp grid.columns := by
  obtain ⟨_, hholds⟩ := holds_ofGrid h
  rw [paddedSize, m.paddedRows_eq, m.paddedColumns_eq, hholds.rows, hholds.columns]

theorem exists_ofGrid_iff {name : String} {grid : Grid (Element p)} {order : StorageOrder} :
    (∃ m, ofGrid name grid order = .ok m) ↔
      ∃ m : StoredMatrix p, zeros name grid.rows grid.columns order = .ok m := by
  unfold ofGrid
  split <;> simp_all

namespace Holds

variable {m m' : StoredMatrix p} {grid : Grid (Element p)}

/-- Reading back gives the cells that are held. -/
theorem toGrid_eq (h : m.Holds grid) : m.toGrid = grid := by
  refine Grid.ext_get? h.rows h.columns fun row hr column hc => ?_
  have hr' : row < grid.rows := h.rows ▸ hr
  have hc' : column < grid.columns := h.columns ▸ hc
  obtain ⟨x, hcell⟩ := grid.exists_get?_eq_some hr' hc'
  rw [toGrid, Grid.get?_ofFn, if_pos ⟨hr, hc⟩, h.cell row hr' column hc', hcell]
  rfl

/-- A grid and an order leave nothing open in the storage. -/
theorem storage_eq (h : m.Holds grid) (h' : m'.Holds grid) (horder : m.order = m'.order) :
    m.storage = m'.storage := by
  have hrows : m.paddedRows = m'.paddedRows := by
    rw [m.paddedRows_eq, m'.paddedRows_eq, h.rows, h'.rows]
  have hcolumns : m.paddedColumns = m'.paddedColumns := by
    rw [m.paddedColumns_eq, m'.paddedColumns_eq, h.columns, h'.columns]
  have hposition : m.position = m'.position := by
    unfold position
    rw [horder, hrows, hcolumns]
  have hsize : m.storage.size = m'.storage.size := by
    rw [m.size_storage, m'.size_storage, hrows, hcolumns]
  refine Array.ext_getElem? fun index => ?_
  by_cases hindex : index < m.storage.size
  · by_cases hcell : ∃ row < grid.rows, ∃ column < grid.columns, m.position row column = index
    · obtain ⟨row, hr, column, hc, rfl⟩ := hcell
      rw [h.cell row hr column hc, hposition, h'.cell row hr column hc]
    · have hfree : ∀ row < grid.rows, ∀ column < grid.columns, m.position row column ≠ index :=
        fun row hr column hc heq => hcell ⟨row, hr, column, hc, heq⟩
      rw [h.padding index (Nat.lt_of_lt_of_eq hindex m.size_storage) hfree,
        h'.padding index (Nat.lt_of_lt_of_eq (hsize ▸ hindex) m'.size_storage) (hposition ▸ hfree)]
  · rw [Array.getElem?_eq_none (Nat.not_lt.1 hindex),
      Array.getElem?_eq_none (hsize ▸ Nat.not_lt.1 hindex)]

/-- The memory image of a matrix has the bytes of each cell at its position. -/
theorem getElem?_image (h : m.Holds grid) {row column : Nat} (hr : row < grid.rows)
    (hc : column < grid.columns) {k : Nat} (hk : k < p.byteSize) :
    m.image.data[m.position row column * p.byteSize + k]? =
      (grid.get? row column).map fun x => UInt8.ofNat (x.toNat / 256 ^ k) := by
  rw [image, getElem?_byteImage _ _ hk, h.cell row hr column hc]
  simp only [Element.byte_eq]

theorem getElem?_image_padding (h : m.Holds grid) {index : Nat} (hindex : index < m.paddedSize)
    (hfree : ∀ row < grid.rows, ∀ column < grid.columns, m.position row column ≠ index)
    {k : Nat} (hk : k < p.byteSize) : m.image.data[index * p.byteSize + k]? = some 0 := by
  rw [image, getElem?_byteImage _ _ hk, h.padding index hindex hfree, Option.map_some,
    Element.byte_eq]
  simp

end Holds

/-- **What is stored is read back.**  From a matrix made from a grid the grid is read back, bit for
bit.  Its memory image has the bytes of each cell, least significant first, at the position of the
cell, and zeros at all positions that are no cell's.  So a matrix made again from what was read has
the same image. -/
theorem ofGrid_readBack {name : String} {grid : Grid (Element p)} {order : StorageOrder}
    {m : StoredMatrix p} (h : ofGrid name grid order = .ok m) :
    m.toGrid = grid ∧ m.image.size = m.paddedSize * p.byteSize ∧
      (∀ row < grid.rows, ∀ column < grid.columns, ∃ x, grid.get? row column = some x ∧
        ∀ k < p.byteSize, m.image.data[m.position row column * p.byteSize + k]? =
          some (UInt8.ofNat (x.toNat / 256 ^ k))) ∧
      (∀ index < m.paddedSize,
        (∀ row < grid.rows, ∀ column < grid.columns, m.position row column ≠ index) →
          ∀ k < p.byteSize, m.image.data[index * p.byteSize + k]? = some 0) ∧
      ∀ name', ∃ m', ofGrid name' m.toGrid order = .ok m' ∧ m'.image = m.image := by
  obtain ⟨horder, hholds⟩ := holds_ofGrid h
  refine ⟨hholds.toGrid_eq, m.size_image.trans m.byteSize_buffer, ?_, ?_, ?_⟩
  · intro row hr column hc
    obtain ⟨x, hcell⟩ := grid.exists_get?_eq_some hr hc
    refine ⟨x, hcell, fun k hk => ?_⟩
    rw [hholds.getElem?_image hr hc hk, hcell]
    rfl
  · exact fun index hindex hfree k hk => hholds.getElem?_image_padding hindex hfree hk
  · intro name'
    rw [hholds.toGrid_eq]
    have hfits := exists_zeros_iff.1 (exists_ofGrid_iff.1 ⟨m, h⟩)
    obtain ⟨m', hm'⟩ := exists_ofGrid_iff.2 (exists_zeros_iff.2 hfits)
    obtain ⟨horder', hholds'⟩ := holds_ofGrid hm'
    have hstorage := hholds'.storage_eq hholds (horder'.trans horder.symm)
    exact ⟨m', hm', by rw [image, image, hstorage]⟩

/-- Two rows of not-a-numbers with a payload; the last cell is minus zero. -/
def payloads : Grid (Element .single) :=
  Grid.ofFn 2 130 fun row column => if (row, column) = (1, 129) then 0x80000000 else 0x7fc00001

theorem exists_ofGrid_payloads (order : StorageOrder) :
    ∃ m, ofGrid "a" payloads order = .ok m :=
  exists_ofGrid_iff.2 (exists_zeros_iff.2 (by decide))

/-- Column after column, the second column starts after the padding of the first. -/
theorem ofGrid_readBack_payloads :
    ∃ m, ofGrid "a" payloads .columnMajor = .ok m ∧ m.toGrid = payloads ∧
      m.image.data[(1 + 129 * 128) * 4 + 3]? = some 0x80 ∧ m.image.data[2 * 4]? = some 0 := by
  obtain ⟨m, hm⟩ := exists_ofGrid_payloads .columnMajor
  obtain ⟨hread, _, hcells, hpadding, _⟩ := ofGrid_readBack hm
  have hposition : ∀ row column, m.position row column = row + column * 128 := position_ofGrid hm
  refine ⟨m, hm, hread, ?_, ?_⟩
  · obtain ⟨x, hx, hbytes⟩ := hcells 1 (by decide) 129 (by decide)
    rw [payloads, Grid.get?_ofFn] at hx
    obtain rfl : (0x80000000 : Element .single) = x := Option.some.inj hx
    have hlast := hbytes 3 (by decide)
    rw [hposition] at hlast
    exact hlast
  · have hsize : m.paddedSize = 128 * 256 := paddedSize_ofGrid hm
    refine hpadding 2 (by omega) (fun row hr column hc => ?_) 0 (by decide)
    rw [hposition]
    have hrow : row < 2 := hr
    omega

end StoredMatrix

end FusedKernel
