import FusedKernel.Leaf.Query
import FusedKernel.Proofs.Storage.Capacity

/-!
# What argument binding is told

A kernel argument is bound from five answers of a leaf, which are computed apart from each other and
apart from the object's own memory image.  For a leaf tagged as what it is they tell one story;
a leaf tagged as something else gives no answer at all.

* `LeafObject.stored?` — the name and the content of what the device stores.
* `Binding` — the answers fit each other and the object.
* `Leaf.buffer_eq_stored?` — a buffer has the name and the byte size of what it is for.

Principal result: `Leaf.binding_verdict` — the answers of a leaf fit, or are one error.
-/

set_option autoImplicit false

namespace FusedKernel

variable {p : Precision}

/-- The name and the memory image of an object that the device stores. -/
def LeafObject.stored? : LeafObject p → Option (String × ByteArray)
  | scalar s => some (s.name, s.image)
  | vector v => some (v.name, v.image)
  | matrix m => some (m.name, m.image)
  | hostScalar _ | constantVector _ | constantMatrix _ => none

/-- The number of entries of an object without storage is a machine word. -/
def LeafObject.InRange : LeafObject p → Prop
  | constantVector v => v.size < wordLimit
  | constantMatrix m => m.rows * m.columns < wordLimit
  | hostScalar _ | scalar _ | vector _ | matrix _ => True

theorem StoredVector.isLeast_paddedSize (v : StoredVector p) :
    IsLeast {k | alignment ∣ k ∧ v.size ≤ k} v.paddedSize :=
  v.paddedSize_eq ▸ isLeast_alignUp v.size

theorem StoredMatrix.isLeast_paddedRows (m : StoredMatrix p) :
    IsLeast {k | alignment ∣ k ∧ m.rows ≤ k} m.paddedRows :=
  m.paddedRows_eq ▸ isLeast_alignUp m.rows

theorem StoredMatrix.isLeast_paddedColumns (m : StoredMatrix p) :
    IsLeast {k | alignment ∣ k ∧ m.columns ≤ k} m.paddedColumns :=
  m.paddedColumns_eq ▸ isLeast_alignUp m.columns

/-- The answers of a leaf describe an object of `count` elements. -/
structure Binding (leaf : Leaf) (object : LeafObject p) (count : Nat) : Prop where
  elementSize : leaf.elementSize = .ok p.byteSize
  paddedSize : leaf.paddedSize = .ok count
  /-- The count has been computed in machine words. -/
  count_lt : object.InRange → count < 2 ^ 64
  exists_buffer_iff :
    (∃ buffer, leaf.buffer = .ok buffer) ↔ object.kind ∈ [.scalar, .vector, .matrix]
  buffer : ∀ buffer, leaf.buffer = .ok buffer →
    ∃ name image, object.stored? = some (name, image) ∧ buffer.label = name ∧
      buffer.byteSize = count * p.byteSize ∧ buffer.byteSize = image.size ∧
      buffer.byteSize = buffer.request.size ∧ buffer.request.label = name
  exists_paddedRows_iff :
    (∃ rows, leaf.paddedRows = .ok rows) ↔ object.kind ∈ [.matrix, .constantMatrix]
  exists_paddedColumns_iff :
    (∃ columns, leaf.paddedColumns = .ok columns) ↔ object.kind ∈ [.matrix, .constantMatrix]
  area : ∀ rows columns, leaf.paddedRows = .ok rows → leaf.paddedColumns = .ok columns →
    rows * columns = count
  vector : ∀ v, object = .vector v → IsLeast {k | 128 ∣ k ∧ v.size ≤ k} count
  matrix : ∀ m, object = .matrix m → ∃ rows columns,
    leaf.paddedRows = .ok rows ∧ IsLeast {k | 128 ∣ k ∧ m.rows ≤ k} rows ∧
      leaf.paddedColumns = .ok columns ∧ IsLeast {k | 128 ∣ k ∧ m.columns ≤ k} columns

namespace Leaf

section Answers

variable (object : LeafObject p)

theorem elementSize_ofObject : (ofObject object).elementSize = .ok p.byteSize := by
  rw [elementSize, LeafFunction.run_ofObject]
  cases object <;> rfl

theorem paddedSize_ofObject :
    (ofObject object).paddedSize = .ok (LeafFunction.paddedSize.apply object) :=
  LeafFunction.run_ofObject _ object

theorem paddedRows_ofObject :
    (ofObject object).paddedRows = LeafFunction.paddedRows.apply object := by
  rw [paddedRows, LeafFunction.run_ofObject]
  rfl

theorem paddedColumns_ofObject :
    (ofObject object).paddedColumns = LeafFunction.paddedColumns.apply object := by
  rw [paddedColumns, LeafFunction.run_ofObject]
  rfl

theorem buffer_ofObject : (ofObject object).buffer = LeafFunction.buffer.apply object := by
  rw [buffer, LeafFunction.run_ofObject]
  rfl

theorem exists_ofMatrix_iff {α : Type} (request : LeafRequest)
    (stored : (p : Precision) → StoredMatrix p → α)
    (constant : (p : Precision) → ConstantMatrix p → α) :
    (∃ a, (LeafFunction.ofMatrix request stored constant).apply object = .ok a) ↔
      object.kind ∈ [.matrix, .constantMatrix] := by
  cases object <;> simp [LeafFunction.apply, LeafFunction.ofMatrix, LeafObject.kind]

/-- The buffer of an object has its name and the size of its memory image. -/
theorem buffer_eq_stored? {b : Buffer} (h : LeafFunction.buffer.apply object = .ok b) :
    ∃ name image, object.stored? = some (name, image) ∧ b = ⟨name, image.size⟩ ∧
      image.size = LeafFunction.paddedSize.apply object * p.byteSize := by
  cases object with
  | hostScalar value => cases h
  | scalar s =>
    cases h
    refine ⟨s.name, s.image, rfl, ?_, ?_⟩
    · rw [s.size_image]; rfl
    · rw [s.size_image]; exact (Nat.one_mul _).symm
  | vector v =>
    cases h
    refine ⟨v.name, v.image, rfl, ?_, v.size_image.trans v.byteSize_buffer⟩
    rw [v.size_image, v.buffer_eq]
  | constantVector v => cases h
  | matrix m =>
    cases h
    refine ⟨m.name, m.image, rfl, ?_, m.size_image.trans m.byteSize_buffer⟩
    rw [m.size_image, m.buffer_eq]
  | constantMatrix m => cases h

end Answers

/-- The answers of a leaf that is tagged as what it is. -/
theorem binding_ofObject (object : LeafObject p) :
    Binding (ofObject object) object (LeafFunction.paddedSize.apply object) where
  elementSize := elementSize_ofObject object
  paddedSize := paddedSize_ofObject object
  count_lt := by
    intro h
    cases object with
    | hostScalar value => exact Nat.one_lt_two_pow (by decide)
    | scalar s => exact Nat.one_lt_two_pow (by decide)
    | vector v => exact v.paddedSize_lt_wordLimit
    | constantVector v => exact h
    | matrix m => exact m.paddedSize_lt_wordLimit
    | constantMatrix m => exact h
  exists_buffer_iff := by
    rw [buffer_ofObject]
    cases object <;> simp [LeafFunction.apply, LeafFunction.buffer, LeafObject.kind]
  buffer := by
    intro b hb
    rw [buffer_ofObject] at hb
    obtain ⟨name, image, hstored, rfl, hsize⟩ := buffer_eq_stored? object hb
    exact ⟨name, image, hstored, rfl, hsize, rfl, rfl, rfl⟩
  exists_paddedRows_iff := by
    rw [paddedRows_ofObject]
    exact exists_ofMatrix_iff object _ _ _
  exists_paddedColumns_iff := by
    rw [paddedColumns_ofObject]
    exact exists_ofMatrix_iff object _ _ _
  area := by
    intro rows columns hrows hcolumns
    rw [paddedRows_ofObject] at hrows
    rw [paddedColumns_ofObject] at hcolumns
    cases object with
    | hostScalar value => cases hrows
    | scalar s => cases hrows
    | vector v => cases hrows
    | constantVector v => cases hrows
    | matrix m => cases hrows; cases hcolumns; rfl
    | constantMatrix m => cases hrows; cases hcolumns; rfl
  vector := by
    rintro v rfl
    exact v.isLeast_paddedSize
  matrix := by
    rintro m rfl
    exact ⟨m.paddedRows, m.paddedColumns, paddedRows_ofObject _, m.isLeast_paddedRows,
      paddedColumns_ofObject _, m.isLeast_paddedColumns⟩

/-- **The answers of a leaf fit, or are one error.**  The answers of a leaf tagged as what it is
describe its object; all the answers of a leaf tagged as something else are the same error. -/
theorem binding_verdict :
    (∀ (p : Precision) (object : LeafObject p), ∃ count, Binding (ofObject object) object count) ∧
      ∀ leaf : Leaf, ¬leaf.Describes → ∃ e,
        leaf.elementSize = .error e ∧ leaf.paddedSize = .error e ∧ leaf.paddedRows = .error e ∧
          leaf.paddedColumns = .error e ∧ leaf.buffer = .error e := by
  refine ⟨fun p object => ⟨_, binding_ofObject object⟩, fun leaf hleaf => ?_⟩
  obtain ⟨e, he⟩ := LeafFunction.run_eq_error_of_not_describes hleaf
  refine ⟨e, he _ _, he _ _, ?_, ?_, ?_⟩
  · rw [paddedRows, he]; rfl
  · rw [paddedColumns, he]; rfl
  · rw [buffer, he]; rfl

/-- A number that the host passes along, tagged as a stored matrix. -/
def disguisedNumber : Leaf where
  shape := .matrix
  representation := .stored
  elementType := .double
  precision := .double
  object := .hostScalar 0

/-- A matrix of 130 rows and 3 columns, and a number that is none. -/
theorem binding_verdict_matrix :
    ∃ m : StoredMatrix .double, StoredMatrix.zeros "b" 130 3 .columnMajor = .ok m ∧
      (∃ b, (ofObject (.matrix m)).buffer = .ok b ∧ b.byteSize = 256 * 128 * 8) ∧
      ∃ e, disguisedNumber.elementSize = .error e ∧ disguisedNumber.buffer = .error e := by
  obtain ⟨hfits, htags⟩ := binding_verdict
  obtain ⟨m, hm⟩ : ∃ m : StoredMatrix .double, StoredMatrix.zeros "b" 130 3 .columnMajor = .ok m :=
    StoredMatrix.exists_zeros_iff.2 (by decide)
  obtain ⟨_, hrows, hcolumns, _, _⟩ := StoredMatrix.zeros_eq_ok hm
  obtain ⟨count, hbinding⟩ := hfits .double (.matrix m)
  obtain ⟨b, hb⟩ := hbinding.exists_buffer_iff.2 (by decide : ObjectKind.matrix ∈ _)
  obtain ⟨_, _, _, _, hsize, _⟩ := hbinding.buffer b hb
  obtain ⟨rows, columns, hr, hleastRows, hc, hleastColumns⟩ := hbinding.matrix m rfl
  have hcount := hbinding.area rows columns hr hc
  obtain ⟨e, helement, _, _, _, hbuffer⟩ := htags disguisedNumber (fun h => nomatch h.tags)
  refine ⟨m, hm, ⟨b, hb, ?_⟩, e, helement, hbuffer⟩
  rw [hsize, ← hcount, hleastRows.unique (isLeast_alignUp m.rows),
    hleastColumns.unique (isLeast_alignUp m.columns), hrows, hcolumns]
  rfl

end Leaf

end FusedKernel
