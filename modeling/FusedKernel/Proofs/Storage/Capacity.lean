import FusedKernel.Storage.Matrix
import FusedKernel.Storage.Vector
import Mathlib.Algebra.Order.Group.Nat
import Mathlib.Order.Bounds.Basic

/-!
# Which sizes can be stored

The checks made on the way to an object of zeros are checks of machine words, one after the other.
Together they come to a comparison of exact sizes with the two limits, so an object either is
refused for the first limit that its exact size exceeds or has exactly that size.

* `isLeast_alignUp` — the padded size is the least multiple of the alignment that suffices.
* `StoredVector.zeros_outcome`, `StoredMatrix.zeros_outcome` — the outcome of a construction.
* `StoredMatrix.position_words` — what is computed for a position are words.

Principal result: `zeros_verdict` — objects of zeros are refused or exact.
-/

set_option autoImplicit false

namespace FusedKernel

theorem isLeast_alignUp (size : Nat) : IsLeast {n | alignment ∣ n ∧ size ≤ n} (alignUp size) :=
  ⟨⟨dvd_alignUp size, le_alignUp size⟩, fun _ hn => alignUp_le hn.2 hn.1⟩

theorem allocationSize_map {α : Type} (p : Precision) (count : Nat) (f : Nat → α) :
    (allocationSize p count).map f =
      if wordLimit ≤ count * p.byteSize then .error (.byteSize count p)
      else if allocationLimit ≤ count * p.byteSize then .error .allocation
      else .ok (f (count * p.byteSize)) := by
  rw [allocationSize_eq]
  split
  · rfl
  · split <;> rfl

variable {p : Precision}

namespace StoredVector

/-- The checks on the way to a vector of zeros, in their order. -/
theorem zeros_checks (name : String) (size : Nat) :
    (zeros (p := p) name size).map (fun v => (v.paddedSize, v.buffer.byteSize)) =
      (FusedKernel.paddedSize size).bind fun padded =>
        (allocationSize p padded).map fun bytes => (padded, bytes) := by
  unfold zeros
  split
  · rename_i e hpadded
    simp [Except.map, Except.bind, hpadded]
  rename_i padded hpadded
  split
  · rename_i e hbytes
    simp [Except.map, Except.bind, hpadded, hbytes]
  · rename_i bytes hbytes
    simp [Except.map, Except.bind, hpadded, hbytes, paddedSize]

/-- A vector of zeros is refused for the first limit that its exact size exceeds. -/
theorem zeros_outcome (name : String) (size : Nat) :
    (zeros (p := p) name size).map (fun v => (v.paddedSize, v.buffer.byteSize)) =
      if wordLimit ≤ alignUp size then .error (.padding size)
      else if wordLimit ≤ alignUp size * p.byteSize then .error (.byteSize (alignUp size) p)
      else if allocationLimit ≤ alignUp size * p.byteSize then .error .allocation
      else .ok (alignUp size, alignUp size * p.byteSize) := by
  rw [zeros_checks, FusedKernel.paddedSize_eq]
  split
  · rfl
  · exact allocationSize_map p _ _

theorem paddedSize_lt_wordLimit (v : StoredVector p) : v.paddedSize < wordLimit := by
  calc v.paddedSize ≤ v.paddedSize * p.byteSize := Nat.le_mul_of_pos_right _ p.byteSize_pos
    _ < allocationLimit := v.storage_fits
    _ < wordLimit := allocationLimit_lt_wordLimit

end StoredVector

namespace StoredMatrix

/-- The checks on the way to a matrix of zeros, in their order. -/
theorem zeros_checks (name : String) (rows columns : Nat) (order : StorageOrder) :
    (zeros (p := p) name rows columns order).map
        (fun m => (m.paddedRows, m.paddedColumns, m.buffer.byteSize)) =
      (FusedKernel.paddedSize rows).bind fun paddedRows =>
        (FusedKernel.paddedSize columns).bind fun paddedColumns =>
          match mulSizes? paddedRows paddedColumns with
          | none => .error (.area paddedRows paddedColumns)
          | some area =>
            (allocationSize p area).map fun bytes => (paddedRows, paddedColumns, bytes) := by
  unfold zeros
  split
  · rename_i e hr
    simp [Except.map, Except.bind, hr]
  rename_i paddedRows hr
  split
  · rename_i e hc
    simp [Except.map, Except.bind, hr, hc]
  rename_i paddedColumns hc
  split
  · rename_i harea
    simp [Except.map, Except.bind, hr, hc, harea]
  rename_i area harea
  split
  · rename_i e hbytes
    simp [Except.map, Except.bind, hr, hc, harea, hbytes]
  · rename_i bytes hbytes
    simp [Except.map, Except.bind, hr, hc, harea, hbytes]

/-- A matrix of zeros is refused for the first limit that its exact size exceeds. -/
theorem zeros_outcome (name : String) (rows columns : Nat) (order : StorageOrder) :
    (zeros (p := p) name rows columns order).map
        (fun m => (m.paddedRows, m.paddedColumns, m.buffer.byteSize)) =
      if wordLimit ≤ alignUp rows then .error (.padding rows)
      else if wordLimit ≤ alignUp columns then .error (.padding columns)
      else if wordLimit ≤ alignUp rows * alignUp columns then
        .error (.area (alignUp rows) (alignUp columns))
      else if wordLimit ≤ alignUp rows * alignUp columns * p.byteSize then
        .error (.byteSize (alignUp rows * alignUp columns) p)
      else if allocationLimit ≤ alignUp rows * alignUp columns * p.byteSize then
        .error .allocation
      else .ok (alignUp rows, alignUp columns, alignUp rows * alignUp columns * p.byteSize) := by
  rw [zeros_checks, paddedSize_eq, paddedSize_eq]
  split
  · rfl
  split
  · rfl
  split
  · rename_i harea
    simp only [Except.bind, mulSizes?_eq_none_iff.2 harea]
  · rename_i harea
    simp only [Except.bind, mulSizes?_eq_some_iff.2 ⟨Nat.not_le.1 harea, rfl⟩]
    exact allocationSize_map p _ _

/-- Neither the name nor the order of storage matters for whether a matrix can be stored. -/
theorem exists_zeros_iff {name : String} {rows columns : Nat} {order : StorageOrder} :
    (∃ m : StoredMatrix p, zeros name rows columns order = .ok m) ↔
      alignUp rows < wordLimit ∧ alignUp columns < wordLimit ∧
        alignUp rows * alignUp columns * p.byteSize < allocationLimit := by
  constructor
  · rintro ⟨m, hm⟩
    obtain ⟨_, rfl, rfl, _, _⟩ := zeros_eq_ok hm
    rw [← m.paddedRows_eq, ← m.paddedColumns_eq, ← m.size_storage]
    exact ⟨m.rows_fit, m.columns_fit, m.storage_fits⟩
  · rintro ⟨hrows, hcolumns, hallocated⟩
    have hbytes := Nat.lt_trans hallocated allocationLimit_lt_wordLimit
    have harea : alignUp rows * alignUp columns < wordLimit :=
      Nat.lt_of_le_of_lt (Nat.le_mul_of_pos_right _ p.byteSize_pos) hbytes
    have houtcome := zeros_outcome (p := p) name rows columns order
    rw [if_neg (Nat.not_le.2 hrows), if_neg (Nat.not_le.2 hcolumns), if_neg (Nat.not_le.2 harea),
      if_neg (Nat.not_le.2 hbytes), if_neg (Nat.not_le.2 hallocated)] at houtcome
    cases hm : zeros (p := p) name rows columns order with
    | error e =>
      rw [hm] at houtcome
      cases houtcome
    | ok m => exact ⟨m, rfl⟩

theorem paddedSize_lt_wordLimit (m : StoredMatrix p) : m.paddedSize < wordLimit := by
  calc m.paddedSize ≤ m.paddedSize * p.byteSize := Nat.le_mul_of_pos_right _ p.byteSize_pos
    _ = m.storage.size * p.byteSize := by rw [m.size_storage]; rfl
    _ < allocationLimit := m.storage_fits
    _ < wordLimit := allocationLimit_lt_wordLimit

/-- The multiplications and additions on the way to a position stay in range. -/
theorem position_words (m : StoredMatrix p) {row column : Nat} (hr : row < m.rows)
    (hc : column < m.columns) :
    row * m.paddedColumns < wordLimit ∧ column * m.paddedRows < wordLimit ∧
      m.position row column < wordLimit ∧ m.position row column < m.paddedSize := by
  have hrow : row ≤ m.paddedRows := Nat.le_of_lt (m.lt_paddedRows hr)
  have hcolumn : column ≤ m.paddedColumns := Nat.le_of_lt (m.lt_paddedColumns hc)
  have hposition : m.position row column < m.paddedSize :=
    Nat.lt_of_lt_of_eq (m.position_lt hr hc) m.size_storage
  have hsize := m.paddedSize_lt_wordLimit
  refine ⟨?_, ?_, Nat.lt_trans hposition hsize, hposition⟩
  · exact Nat.lt_of_le_of_lt (Nat.mul_le_mul_right _ hrow) hsize
  · rw [Nat.mul_comm]
    exact Nat.lt_of_le_of_lt (Nat.mul_le_mul_left _ hcolumn) hsize

end StoredMatrix

/-- **Objects of zeros are refused or exact.**  A construction compares exact sizes with the two
limits, in a fixed order, and either reports the first one that is exceeded or gives an object of
the exact size.  In a matrix that has been constructed, whatever is computed for a position is in
range, and the position lies in the storage. -/
theorem zeros_verdict (p : Precision) (name : String) (order : StorageOrder)
    (size rows columns : Nat) :
    (∀ n, IsLeast {k | 128 ∣ k ∧ n ≤ k} (alignUp n)) ∧
      (StoredVector.zeros (p := p) name size).map (fun v => (v.paddedSize, v.buffer.byteSize)) =
        (if 2 ^ 64 ≤ alignUp size then .error (.padding size)
        else if 2 ^ 64 ≤ alignUp size * p.byteSize then .error (.byteSize (alignUp size) p)
        else if 2 ^ 63 ≤ alignUp size * p.byteSize then .error .allocation
        else .ok (alignUp size, alignUp size * p.byteSize)) ∧
      (StoredMatrix.zeros (p := p) name rows columns order).map
          (fun m => (m.paddedRows, m.paddedColumns, m.buffer.byteSize)) =
        (if 2 ^ 64 ≤ alignUp rows then .error (.padding rows)
        else if 2 ^ 64 ≤ alignUp columns then .error (.padding columns)
        else if 2 ^ 64 ≤ alignUp rows * alignUp columns then
          .error (.area (alignUp rows) (alignUp columns))
        else if 2 ^ 64 ≤ alignUp rows * alignUp columns * p.byteSize then
          .error (.byteSize (alignUp rows * alignUp columns) p)
        else if 2 ^ 63 ≤ alignUp rows * alignUp columns * p.byteSize then .error .allocation
        else .ok (alignUp rows, alignUp columns, alignUp rows * alignUp columns * p.byteSize)) ∧
      ∀ m : StoredMatrix p, StoredMatrix.zeros name rows columns order = .ok m →
        m.paddedSize < 2 ^ 64 ∧
          ∀ row < rows, ∀ column < columns,
            row * m.paddedColumns < 2 ^ 64 ∧ column * m.paddedRows < 2 ^ 64 ∧
              m.position row column < 2 ^ 64 ∧
              m.position row column < alignUp rows * alignUp columns := by
  refine ⟨isLeast_alignUp, StoredVector.zeros_outcome name size,
    StoredMatrix.zeros_outcome name rows columns order, ?_⟩
  intro m hm
  obtain ⟨_, rfl, rfl, _, _⟩ := StoredMatrix.zeros_eq_ok hm
  rw [← m.paddedRows_eq, ← m.paddedColumns_eq]
  exact ⟨m.paddedSize_lt_wordLimit, fun row hr column hc => m.position_words hr hc⟩

/-- A vector that no allocation can hold, a matrix whose many rows are empty, and the last position
of a matrix of 130 rows. -/
theorem zeros_verdict_atLimits :
    (StoredVector.zeros (p := .double) "x" (2 ^ 60)).map
        (fun v => (v.paddedSize, v.buffer.byteSize)) = .error .allocation ∧
      (StoredMatrix.zeros (p := .double) "x" (2 ^ 64 - 128) 0 .rowMajor).map
          (fun m => (m.paddedRows, m.paddedColumns, m.buffer.byteSize)) =
        .ok (2 ^ 64 - 128, 0, 0) ∧
      ∃ m : StoredMatrix .double, StoredMatrix.zeros "b" 130 3 .columnMajor = .ok m ∧
        2 * m.paddedRows < 2 ^ 64 ∧ m.position 129 2 < 256 * 128 := by
  obtain ⟨_, hvector, hwide, _⟩ := zeros_verdict .double "x" .rowMajor (2 ^ 60) (2 ^ 64 - 128) 0
  obtain ⟨_, _, hsmall, hwords⟩ := zeros_verdict .double "b" .columnMajor 0 130 3
  refine ⟨hvector.trans rfl, hwide.trans rfl, ?_⟩
  cases hm : StoredMatrix.zeros (p := .double) "b" 130 3 .columnMajor with
  | error e =>
    rw [hm] at hsmall
    cases hsmall.trans rfl
  | ok m =>
    obtain ⟨_, hproduct, _, hposition⟩ := (hwords m hm).2 129 (by decide) 2 (by decide)
    exact ⟨m, rfl, hproduct, hposition⟩

end FusedKernel
