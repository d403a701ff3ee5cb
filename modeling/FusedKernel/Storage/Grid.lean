/-!
# Two-dimensional arrays on the host

A `Grid` holds `rows * columns` cells in row order.  It is what a matrix is made from and
what it is read back into.

Principal results: `get?_ofFn` (a grid built from a function holds its values), `ext_get?`
(a grid is its dimensions and its cells).
-/

set_option autoImplicit false

namespace FusedKernel

/-- Cells in rows and columns. -/
structure Grid (α : Type) where
  rows : Nat
  columns : Nat
  /-- The cells, row after row. -/
  cells : Array α
  size_cells : cells.size = rows * columns
  deriving DecidableEq, Repr

namespace Grid

variable {α : Type}

/-- The cell in a row and a column, if the grid has one there. -/
def get? (g : Grid α) (row column : Nat) : Option α :=
  if column < g.columns then g.cells[row * g.columns + column]? else none

/-- The grid whose cell in each row and column is the value of `f` there. -/
def ofFn (rows columns : Nat) (f : Nat → Nat → α) : Grid α where
  rows
  columns
  cells := Array.ofFn fun k : Fin (rows * columns) => f (k / columns) (k % columns)
  size_cells := Array.size_ofFn

theorem index_lt {rows columns row column : Nat} (hr : row < rows) (hc : column < columns) :
    row * columns + column < rows * columns := by
  have := Nat.mul_le_mul_right columns (Nat.succ_le_of_lt hr)
  rw [Nat.succ_mul] at this
  omega

theorem index_div {columns row column : Nat} (hc : column < columns) :
    (row * columns + column) / columns = row := by
  rw [Nat.add_comm, Nat.add_mul_div_right _ _ (by omega), Nat.div_eq_of_lt hc, Nat.zero_add]

theorem index_mod {columns row column : Nat} (hc : column < columns) :
    (row * columns + column) % columns = column := by
  rw [Nat.add_comm, Nat.add_mul_mod_self_right, Nat.mod_eq_of_lt hc]

theorem coordinates_lt {rows columns k : Nat} (h : k < rows * columns) :
    k / columns < rows ∧ k % columns < columns := by
  have hpos : 0 < columns := by
    rcases Nat.eq_zero_or_pos columns with h0 | h0
    · rw [h0, Nat.mul_zero] at h; omega
    · exact h0
  exact ⟨(Nat.div_lt_iff_lt_mul hpos).2 h, Nat.mod_lt k hpos⟩

theorem get?_eq_none_iff (g : Grid α) (row column : Nat) :
    g.get? row column = none ↔ ¬(row < g.rows ∧ column < g.columns) := by
  unfold get?
  split
  · rename_i hc
    rw [Array.getElem?_eq_none_iff, g.size_cells]
    constructor
    · exact fun h ⟨hr, _⟩ => Nat.not_le_of_lt (index_lt hr hc) h
    · intro h
      have hr : g.rows ≤ row := by omega
      exact Nat.le_trans (Nat.mul_le_mul_right _ hr) (Nat.le_add_right _ _)
  · rename_i hc
    simp [hc]

theorem exists_get?_eq_some (g : Grid α) {row column : Nat} (hr : row < g.rows)
    (hc : column < g.columns) : ∃ x, g.get? row column = some x := by
  rw [← Option.ne_none_iff_exists']
  exact fun h => (get?_eq_none_iff g row column).1 h ⟨hr, hc⟩

theorem get?_ofFn (rows columns : Nat) (f : Nat → Nat → α) (row column : Nat) :
    (ofFn rows columns f).get? row column =
      if row < rows ∧ column < columns then some (f row column) else none := by
  split
  · rename_i h
    have hi := index_lt h.1 h.2
    simp only [get?, ofFn, h.2, if_true, Array.getElem?_ofFn, hi, dif_pos]
    rw [index_div h.2, index_mod h.2]
  · rename_i h
    exact (get?_eq_none_iff _ _ _).2 h

theorem ext_get? {g h : Grid α} (hr : g.rows = h.rows) (hc : g.columns = h.columns)
    (hcell : ∀ row < g.rows, ∀ column < g.columns, g.get? row column = h.get? row column) :
    g = h := by
  obtain ⟨rows, columns, cells, hcells⟩ := g
  obtain ⟨rows', columns', cells', hcells'⟩ := h
  simp only at hr hc
  subst hr hc
  congr
  refine Array.ext (by rw [hcells, hcells']) fun k hk hk' => ?_
  obtain ⟨hdiv, hmod⟩ := coordinates_lt (hcells ▸ hk : k < rows * columns)
  have := hcell (k / columns) hdiv (k % columns) hmod
  simp only [get?, hmod, if_true] at this
  rw [Nat.mul_comm (k / columns), Nat.div_add_mod] at this
  simpa [hk, hk'] using this

end Grid

end FusedKernel
