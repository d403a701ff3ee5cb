import FusedKernel.Storage.Buffer

/-!
# Scalars and vectors on the device

A `StoredScalar` is a single element, a `StoredVector` a sequence of elements padded with
zeros to whole blocks.  A `ConstantVector` is given by the value of its entries.

Principal results: `StoredVector.zeros_eq_ok` (the vector of zeros exists once the two checks
pass), `StoredVector.getElem?_storage_overwrite` (overwriting replaces the leading entries
and leaves the padding), `StoredVector.size_image`.
-/

set_option autoImplicit false

namespace FusedKernel

variable {p : Precision}

/-- A single element on the device. -/
structure StoredScalar (p : Precision) where
  name : String
  value : Element p
  deriving DecidableEq, Repr

namespace StoredScalar

def buffer (s : StoredScalar p) : Buffer := ⟨s.name, p.byteSize⟩

/-- What to write into the buffer. -/
def image (s : StoredScalar p) : ByteArray := byteImage #[s.value]

theorem size_image (s : StoredScalar p) : s.image.size = s.buffer.byteSize := by
  simp [image, size_byteImage, buffer]

end StoredScalar

/-- A vector with all entries equal. -/
structure ConstantVector (p : Precision) where
  name : String
  size : Nat
  value : Element p
  deriving DecidableEq, Repr

/-- A vector in whole blocks. -/
structure StoredVector (p : Precision) where
  name : String
  size : Nat
  storage : Array (Element p)
  /-- What was asked of the device when the vector was made. -/
  buffer : Buffer
  size_storage : storage.size = alignUp size
  buffer_eq : buffer = ⟨name, storage.size * p.byteSize⟩
  storage_fits : storage.size * p.byteSize < allocationLimit
  deriving Repr

instance : DecidableEq (StoredVector p) := fun v w =>
  decidable_of_iff (v.name = w.name ∧ v.size = w.size ∧ v.storage = w.storage) <| by
    obtain ⟨_, _, _, _, _, rfl, _⟩ := v
    obtain ⟨_, _, _, _, _, rfl, _⟩ := w
    simp only [StoredVector.mk.injEq]
    constructor
    · rintro ⟨rfl, rfl, rfl⟩
      exact ⟨rfl, rfl, rfl, rfl⟩
    · exact fun h => ⟨h.1, h.2.1, h.2.2.1⟩

namespace StoredVector

def paddedSize (v : StoredVector p) : Nat := v.storage.size

/-- Reads the vector back, without the padding. -/
def values (v : StoredVector p) : Array (Element p) := v.storage.extract 0 v.size

/-- What to write into the buffer. -/
def image (v : StoredVector p) : ByteArray := byteImage v.storage

theorem paddedSize_eq (v : StoredVector p) : v.paddedSize = alignUp v.size := v.size_storage

theorem size_values (v : StoredVector p) : v.values.size = v.size := by
  have := le_alignUp v.size
  simp only [values, Array.size_extract, v.size_storage]
  omega

theorem byteSize_buffer (v : StoredVector p) : v.buffer.byteSize = v.paddedSize * p.byteSize := by
  rw [v.buffer_eq, paddedSize]

theorem size_image (v : StoredVector p) : v.image.size = v.buffer.byteSize := by
  rw [image, size_byteImage, v.buffer_eq]

/-! ## Construction -/

/-- The vector of `size` zeros. -/
def zeros (name : String) (size : Nat) : Except StorageError (StoredVector p) :=
  match hpadded : FusedKernel.paddedSize size with
  | .error e => .error e
  | .ok padded =>
    match hbytes : allocationSize p padded with
    | .error e => .error e
    | .ok bytes =>
      .ok {
        name
        size
        storage := Array.replicate padded 0
        buffer := ⟨name, bytes⟩
        size_storage := by rw [Array.size_replicate]; exact (paddedSize_eq_ok_iff.1 hpadded).2
        buffer_eq := buffer_replicate_zero name hbytes
        storage_fits := replicate_zero_fits hbytes }

/-- Replaces the leading entries by `values`; entries past the storage are dropped. -/
def overwrite (v : StoredVector p) (values : Array (Element p)) : StoredVector p :=
  { v with
    storage := Array.ofFn fun k : Fin v.storage.size => values[k.val]?.getD v.storage[k]
    size_storage := by rw [Array.size_ofFn]; exact v.size_storage
    buffer_eq := by rw [Array.size_ofFn]; exact v.buffer_eq
    storage_fits := by rw [Array.size_ofFn]; exact v.storage_fits }

/-- The vector holding `values`, followed by zero padding. -/
def ofArray (name : String) (values : Array (Element p)) :
    Except StorageError (StoredVector p) :=
  match zeros name values.size with
  | .error e => .error e
  | .ok v => .ok (v.overwrite values)

theorem zeros_eq_ok {name : String} {size : Nat} {v : StoredVector p}
    (h : zeros name size = .ok v) :
    alignUp size < wordLimit ∧ v.name = name ∧ v.size = size ∧
      v.storage = Array.replicate (alignUp size) 0 := by
  unfold zeros at h
  split at h
  · cases h
  rename_i padded hpadded
  obtain ⟨hfits, rfl⟩ := paddedSize_eq_ok_iff.1 hpadded
  split at h
  · cases h
  cases h
  exact ⟨hfits, rfl, rfl, rfl⟩

theorem getElem?_storage_overwrite (v : StoredVector p) (values : Array (Element p)) (k : Nat) :
    (v.overwrite values).storage[k]? =
      v.storage[k]?.map fun old => values[k]?.getD old := by
  by_cases h : k < v.storage.size <;> simp [overwrite, h]

theorem ofArray_eq_ok {name : String} {values : Array (Element p)} {v : StoredVector p}
    (h : ofArray name values = .ok v) :
    v.name = name ∧ v.size = values.size ∧
      ∀ k < alignUp values.size, v.storage[k]? = some (values[k]?.getD 0) := by
  unfold ofArray at h
  split at h
  · cases h
  rename_i w hw
  cases h
  obtain ⟨_, hname, hsize, hstorage⟩ := zeros_eq_ok hw
  refine ⟨hname, hsize, fun k hk => ?_⟩
  rw [getElem?_storage_overwrite, hstorage, Array.getElem?_replicate, if_pos hk]
  rfl

end StoredVector

end FusedKernel
