import FusedKernel.Element
import FusedKernel.Storage.Alignment

/-!
# What can stop the construction of a device object

Sizes are counted in machine words of 64 bits, and a single allocation may not reach half
of the address space.  `StorageError` lists the ways a requested size can exceed these
limits, `paddedSize` and `allocationSize` are the two checks.

Principal results: `paddedSize_eq`, `allocationSize_eq` (a check compares the exact size with
the limits), `paddedSize_eq_ok_iff`, `allocationSize_eq_ok_iff` (when a check passes).
-/

set_option autoImplicit false

namespace FusedKernel

/-- The byte size of one allocation stays below this bound. -/
def allocationLimit : Nat := Nat.pow 2 63

theorem allocationLimit_lt_wordLimit : allocationLimit < wordLimit := by decide

/-- Why an object cannot be constructed. -/
inductive StorageError where
  /-- Padding this many elements leaves the range of sizes. -/
  | padding (size : Nat)
  /-- The product of two padded dimensions leaves the range of sizes. -/
  | area (paddedRows paddedColumns : Nat)
  /-- So many elements have a byte size outside the range of sizes. -/
  | byteSize (elements : Nat) (precision : Precision)
  /-- The byte size is in range, but no allocation can be that large. -/
  | allocation
  deriving DecidableEq, Repr

namespace StorageError

/-- The wording of an error. -/
def message : StorageError → String
  | padding size => s!"padding {size} elements overflows usize"
  | area rows columns => s!"a padded {rows}x{columns} matrix overflows usize"
  | byteSize elements p => s!"{elements} elements of {p.kernelName} overflow the byte size"
  | allocation => "capacity overflow"

end StorageError

/-! ## Checks -/

/-- Pads a size, or reports that the padded size is out of range. -/
def paddedSize (size : Nat) : Except StorageError Nat :=
  match alignUp? size with
  | none => .error (.padding size)
  | some padded => .ok padded

/-- The byte size of `count` elements, or why they cannot be allocated together. -/
def allocationSize (p : Precision) (count : Nat) : Except StorageError Nat :=
  match mulSizes? count p.byteSize with
  | none => .error (.byteSize count p)
  | some bytes => if allocationLimit ≤ bytes then .error .allocation else .ok bytes

theorem paddedSize_eq (size : Nat) :
    paddedSize size =
      if wordLimit ≤ alignUp size then .error (.padding size) else .ok (alignUp size) := by
  rw [paddedSize, alignUp?_eq]
  by_cases h : alignUp size < wordLimit
  · rw [if_pos h, if_neg (Nat.not_le.2 h)]
  · rw [if_neg h, if_pos (Nat.not_lt.1 h)]

theorem allocationSize_eq (p : Precision) (count : Nat) :
    allocationSize p count =
      if wordLimit ≤ count * p.byteSize then .error (.byteSize count p)
      else if allocationLimit ≤ count * p.byteSize then .error .allocation
      else .ok (count * p.byteSize) := by
  rw [allocationSize, mulSizes?]
  by_cases h : count * p.byteSize < wordLimit
  · rw [if_pos h, if_neg (Nat.not_le.2 h)]
  · rw [if_neg h, if_pos (Nat.not_lt.1 h)]

theorem paddedSize_eq_ok_iff {size n : Nat} :
    paddedSize size = .ok n ↔ alignUp size < wordLimit ∧ n = alignUp size := by
  rw [paddedSize_eq]
  split
  · simp; omega
  · simp only [Except.ok.injEq]; omega

theorem allocationSize_eq_ok_iff {p : Precision} {count n : Nat} :
    allocationSize p count = .ok n ↔
      count * p.byteSize < allocationLimit ∧ n = count * p.byteSize := by
  have := allocationLimit_lt_wordLimit
  rw [allocationSize_eq]
  split
  · simp; omega
  · split <;> simp <;> omega

end FusedKernel
