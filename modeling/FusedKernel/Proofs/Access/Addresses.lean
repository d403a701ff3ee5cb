import FusedKernel.Access.Symbol
import FusedKernel.Proofs.Access.Arithmetic
import FusedKernel.Proofs.Storage.Contents

/-!
# Where an access reads

The text of an access to a matrix spells out a formula for the position of a cell, and nothing
compares it with the formula the storage has been filled by.  With the padded leading dimension of
the matrix they agree: read as arithmetic, the index expression has the position of the cell for its
value.

* `Addresses` — a text is an access, by a label, to an address.
* `StoredMatrix.accessText` — the access to a cell, with all numbers written out.
* `StoredMatrix.addresses_position` — its address is the position of the cell.

Principal result: `StoredMatrix.accessText_readsCell` — an access reads the cell it is meant for.
-/

set_option autoImplicit false

namespace FusedKernel

/-- The text is the label and, in brackets, an expression with this value. -/
def Addresses (text label : String) (address : Nat) : Prop :=
  ∃ index, text = label ++ "[" ++ index ++ "]" ∧ Arithmetic.value? index = some address

theorem Addresses.unique {text label : String} {address address' : Nat}
    (h : Addresses text label address) (h' : Addresses text label address') :
    address = address' := by
  obtain ⟨index, rfl, hvalue⟩ := h
  obtain ⟨index', htext, hvalue'⟩ := h'
  have hindex : index = index' := by simpa [← String.toList_inj] using htext
  rw [← hindex, hvalue] at hvalue'
  exact Option.some.inj hvalue'

namespace StoredMatrix

variable {p : Precision}

/-- The access to a cell of a matrix, with its padded leading dimension. -/
def accessText (m : StoredMatrix p) (label : String) (row column : Nat) : String :=
  let leadingDimension := toString (m.order.leadingDimension m.paddedRows m.paddedColumns)
  (Symbol.matrix label leadingDimension m.order).render
    (.ofIndices (toString row) (toString column))

theorem addresses_position (m : StoredMatrix p) (label : String) (row column : Nat) :
    Addresses (m.accessText label row column) label (m.position row column) := by
  unfold accessText position
  cases m.order with
  | rowMajor =>
    refine ⟨toString row ++ "*" ++ toString m.paddedColumns ++ "+" ++ toString column, ?_,
      Arithmetic.value?_productPlus _ _ _⟩
    rw [Symbol.render_rowMajor]
    exact String.append_empty
  | columnMajor =>
    refine ⟨toString row ++ "+" ++ toString column ++ "*" ++ toString m.paddedRows, ?_,
      Arithmetic.value?_plusProduct _ _ _⟩
    rw [Symbol.render_columnMajor]
    exact String.append_empty

/-- **An access reads the cell it is meant for.**  In a matrix made from a grid, the address of the
access to a cell lies in the storage, the storage has that very cell there, and no access to another
cell has the same address. -/
theorem accessText_readsCell {name : String} {grid : Grid (Element p)} {order : StorageOrder}
    {m : StoredMatrix p} (h : ofGrid name grid order = .ok m) (label : String) {row column : Nat}
    (hr : row < grid.rows) (hc : column < grid.columns) :
    ∃ address, Addresses (m.accessText label row column) label address ∧
      address < m.paddedSize ∧
      (∃ x, grid.get? row column = some x ∧ m.storage[address]? = some x) ∧
      ∀ row' < grid.rows, ∀ column' < grid.columns,
        Addresses (m.accessText label row' column') label address →
          row' = row ∧ column' = column := by
  obtain ⟨_, hholds⟩ := holds_ofGrid h
  have hrow : row < m.rows := hholds.rows ▸ hr
  have hcolumn : column < m.columns := hholds.columns ▸ hc
  refine ⟨m.position row column, m.addresses_position label row column,
    (m.position_words hrow hcolumn).2.2.2, ?_, ?_⟩
  · obtain ⟨x, hx⟩ := grid.exists_get?_eq_some hr hc
    exact ⟨x, hx, (hholds.cell row hr column hc).trans hx⟩
  · intro row' hr' column' hc' haddress
    have hposition := (m.addresses_position label row' column').unique haddress
    exact m.position_injective (hholds.rows ▸ hr') (hholds.columns ▸ hc') hrow hcolumn hposition

/-- In front of the last of 130 columns there are 129 of 128 cells each. -/
theorem accessText_readsCell_payloads :
    ∃ m, ofGrid "a" payloads .columnMajor = .ok m ∧
      m.accessText "A" 1 129 = "A[1+129*128]" ∧ m.storage[16513]? = some 0x80000000 := by
  obtain ⟨m, hm⟩ := exists_ofGrid_payloads .columnMajor
  obtain ⟨horder, hholds⟩ := holds_ofGrid hm
  obtain ⟨address, haddress, _, ⟨x, hx, hstored⟩, _⟩ :=
    accessText_readsCell hm "A" (by decide : 1 < payloads.rows) (by decide : 129 < payloads.columns)
  have hposition : address = 16513 :=
    (haddress.unique (m.addresses_position "A" 1 129)).trans (position_ofGrid hm 1 129)
  rw [payloads, Grid.get?_ofFn] at hx
  obtain rfl : (0x80000000 : Element .single) = x := Option.some.inj hx
  refine ⟨m, hm, ?_, hposition ▸ hstored⟩
  rw [accessText, horder, m.paddedRows_eq, m.paddedColumns_eq, hholds.rows, hholds.columns]
  decide

end StoredMatrix

end FusedKernel
