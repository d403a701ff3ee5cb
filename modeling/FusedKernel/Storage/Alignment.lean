import FusedKernel.Storage.Size

/-!
# Padding of dimensions

The device stores vectors and matrices in blocks of 128 elements along each dimension, so a
dimension that is no multiple of 128 is padded.

Principal results: `le_alignUp`, `dvd_alignUp` and `alignUp_le` — the padded size is the
least multiple of the alignment that is at least the logical size; `alignUp?_eq` — padding fails
only where the padded size is out of range.
-/

set_option autoImplicit false

namespace FusedKernel

/-- The length of a block. -/
def alignment : Nat := 128

/-- The size that whole blocks give to a dimension. -/
def alignUp (size : Nat) : Nat := (size + (alignment - 1)) / alignment * alignment

theorem le_alignUp (size : Nat) : size ≤ alignUp size := by
  simp only [alignUp, alignment]; omega

theorem dvd_alignUp (size : Nat) : alignment ∣ alignUp size :=
  Nat.dvd_mul_left _ _

theorem alignUp_le {size bound : Nat} (h : size ≤ bound) (hd : alignment ∣ bound) :
    alignUp size ≤ bound := by
  obtain ⟨k, rfl⟩ := hd
  simp only [alignUp, alignment] at *; omega

@[simp] theorem alignUp_zero : alignUp 0 = 0 := rfl

/-! ## Padding a size in machine words -/

/-- How much a size lacks of whole blocks. -/
def lacking (size : Nat) : Nat :=
  if size % alignment = 0 then 0 else alignment - size % alignment

/-- Adds to a size what it lacks, if the sum is a size. -/
def alignUp? (size : Nat) : Option Nat := addSizes? size (lacking size)

theorem add_lacking (size : Nat) : size + lacking size = alignUp size := by
  unfold lacking
  split <;> simp only [alignUp, alignment] at * <;> omega

theorem alignUp?_eq (size : Nat) :
    alignUp? size = if alignUp size < wordLimit then some (alignUp size) else none := by
  rw [alignUp?, addSizes?, add_lacking]

end FusedKernel
