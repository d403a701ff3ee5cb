import FusedKernel.Element
import FusedKernel.Storage.Error

/-!
# Device buffers

The memory of a device object is allocated and bound elsewhere.  A `Buffer` has a label and
a size, `Buffer.request` adds how it will be used, and `byteImage` is the content to upload.

Principal results: `buffer_replicate_zero` (a buffer for zeros has been given their exact size),
`toList_byteImage` (the image is the elements' bytes in order), `size_byteImage`.
-/

set_option autoImplicit false

namespace FusedKernel

/-- The buffer an object needs on the device. -/
structure Buffer where
  label : String
  byteSize : Nat
  deriving DecidableEq, Repr

namespace BufferUsage

/-- The buffer can be read by copies. -/
def copySource : Nat := 4

/-- The buffer can be written by copies. -/
def copyDestination : Nat := 8

/-- The buffer can be bound by kernels. -/
def storage : Nat := 128

end BufferUsage

/-- What the device needs to create a buffer. -/
structure BufferRequest where
  label : String
  size : Nat
  usage : Nat
  mappedAtCreation : Bool
  deriving DecidableEq, Repr

/-- Buffers are uploaded to, read back and bound, and never mapped when created. -/
def Buffer.request (buffer : Buffer) : BufferRequest where
  label := buffer.label
  size := buffer.byteSize
  usage := BufferUsage.storage ||| BufferUsage.copyDestination ||| BufferUsage.copySource
  mappedAtCreation := false

theorem buffer_replicate_zero {p : Precision} {count bytes : Nat} (label : String)
    (h : allocationSize p count = .ok bytes) :
    (⟨label, bytes⟩ : Buffer) =
      ⟨label, (Array.replicate count (0 : Element p)).size * p.byteSize⟩ := by
  rw [Array.size_replicate, (allocationSize_eq_ok_iff.1 h).2]

theorem replicate_zero_fits {p : Precision} {count bytes : Nat}
    (h : allocationSize p count = .ok bytes) :
    (Array.replicate count (0 : Element p)).size * p.byteSize < allocationLimit := by
  rw [Array.size_replicate]
  exact (allocationSize_eq_ok_iff.1 h).1

/-! ## Content -/

section ByteImage

variable {p : Precision}

/-- Appends the memory image of one element. -/
def pushElement (image : ByteArray) (x : Element p) : ByteArray :=
  p.byteSize.fold (fun k _ image => image.push (x.byte k)) image

/-- The memory image of a sequence of elements. -/
def byteImage (elements : Array (Element p)) : ByteArray :=
  elements.foldl pushElement ByteArray.empty

theorem toList_pushElement (image : ByteArray) (x : Element p) :
    (pushElement image x).data.toList = image.data.toList ++ x.bytes := by
  have go : ∀ count : Nat,
      (count.fold (fun k _ image => image.push (x.byte k)) image).data.toList =
        image.data.toList ++ (List.range count).map x.byte := by
    intro count
    induction count with
    | zero => simp
    | succ count ih =>
      rw [Nat.fold_succ, ByteArray.data_push, Array.toList_push, ih]
      simp [List.range_succ]
  exact go p.byteSize

theorem toList_byteImage (elements : Array (Element p)) :
    (byteImage elements).data.toList = elements.toList.flatMap Element.bytes := by
  have go : ∀ (xs : List (Element p)) (image : ByteArray),
      (xs.foldl pushElement image).data.toList =
        image.data.toList ++ xs.flatMap Element.bytes := by
    intro xs
    induction xs with
    | nil => simp
    | cons x xs ih => intro image; simp [ih, toList_pushElement]
  rw [byteImage, ← Array.foldl_toList, go]
  rfl

theorem size_byteImage (elements : Array (Element p)) :
    (byteImage elements).size = elements.size * p.byteSize := by
  have h := congrArg List.length (toList_byteImage elements)
  rw [Array.length_toList] at h
  show (byteImage elements).data.size = _
  simp only [h, List.length_flatMap, Element.bytes_length, List.map_const', Array.length_toList,
    List.sum_replicate_nat]

end ByteImage

end FusedKernel
