/-!
# Nodes and their sides

A node is referred to by its number.  A `Side` is a side of a node: the node itself, or one of
its two operands.
-/

set_option autoImplicit false

namespace FusedKernel

/-- The number of a node in its graph. -/
abbrev NodeId := Nat

/-- A side of a node. -/
inductive Side where
  | left
  | self
  | right
  deriving DecidableEq, Repr

namespace Side

/-- How messages call a side. -/
def name : Side → String
  | left => "Lhs"
  | self => "Parent"
  | right => "Rhs"

/-- All sides, from left to right. -/
def all : List Side := [left, self, right]

theorem mem_all (side : Side) : side ∈ all := by
  cases side <;> decide

end Side

end FusedKernel
