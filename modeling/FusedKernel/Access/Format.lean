import FusedKernel.Error

/-!
# How element accesses are phrased

An `AccessFormat` holds the two index expressions that select an element and, where elements
have a vector type, the lane that selects one of their components.  The index expressions are
opaque: they are copied into the text of an access and never looked into.

Principal results: `AccessFormat.withLane_eq_ok_iff`, `AccessFormat.withLane_eq_error_iff`
(a lane is accepted exactly when it is one of the sixteen).
-/

set_option autoImplicit false

namespace FusedKernel

/-- Vector types have up to sixteen components. -/
def laneCount : Nat := 16

/-- Which element an access selects. -/
structure AccessFormat where
  /-- Selects the row of a matrix, or the entry of a vector. -/
  first : String
  /-- Selects the column of a matrix. -/
  second : String
  lane : Option (Fin laneCount)
  deriving DecidableEq, Repr

namespace AccessFormat

/-- A format without a lane. -/
def ofIndices (first second : String) : AccessFormat := ⟨first, second, none⟩

/-- The format with the customary loop variables. -/
def standard : AccessFormat := ofIndices "i" "j"

/-- Chooses a lane, in place of the one chosen before. -/
def withLane (format : AccessFormat) (lane : Nat) : Except GenerationError AccessFormat :=
  if h : lane < laneCount then .ok { format with lane := some ⟨lane, h⟩ }
  else .error (.laneOutOfRange lane)

theorem withLane_eq_ok_iff {format format' : AccessFormat} {lane : Nat} :
    format.withLane lane = .ok format' ↔
      ∃ h : lane < laneCount, format' = { format with lane := some ⟨lane, h⟩ } := by
  unfold withLane
  split <;> rename_i h <;> simp [h, eq_comm]

theorem withLane_eq_error_iff {format : AccessFormat} {lane : Nat} {e : GenerationError} :
    format.withLane lane = .error e ↔ laneCount ≤ lane ∧ e = .laneOutOfRange lane := by
  unfold withLane
  split
  · simp; omega
  · rename_i h
    simp [Nat.le_of_not_lt h, eq_comm]

/-- The component suffix of an access: `.s` and one hexadecimal digit. -/
def laneSuffix (format : AccessFormat) : String :=
  match format.lane with
  | none => ""
  | some lane => ".s" ++ String.singleton (Nat.digitChar lane)

end AccessFormat

end FusedKernel
