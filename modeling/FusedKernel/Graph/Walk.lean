import FusedKernel.Graph

/-!
# Walking an expression

`Walk.run` takes a `Visitor` through the expression at a node.  The walk enters the node,
follows its left operand, visits the node itself, follows its right operand, and leaves the
node.  An operand that is a node is walked in the same way, and one that is a leaf is
visited.  A hook that fails stops the walk, and the state it leaves is the final one.

A fused walk treats a node that gets a kernel to itself as if it had no operands; a full walk
follows them.

The walk carries the number of levels it may still descend, one more than the graph has nodes
at the start.  A path that is longer than that has gone around a cycle, so running out of
levels is the error for a cycle.

Principal results: `Walk.descend_zero`, `Walk.descend_outOfRange`, `Walk.descend_node` — the
three ways a descent begins.
-/

set_option autoImplicit false

namespace FusedKernel

/-- Actions on the state of a visitor, which may stop the walk. -/
abbrev WalkM (σ : Type) := EStateM GenerationError σ

/-- What to do at each point of a walk. -/
structure Visitor (σ : Type) where
  enter : NodeId → Node → WalkM σ Unit := fun _ _ => pure ()
  /-- The side tells a visit of the node itself from one of a leaf below it. -/
  visit : Side → NodeId → Node → WalkM σ Unit
  leave : NodeId → Node → WalkM σ Unit := fun _ _ => pure ()

namespace Walk

/-- Which operands a walk follows. -/
inductive Mode where
  /-- Only what is written inline is followed. -/
  | fused
  /-- All operands are followed. -/
  | full
  deriving DecidableEq, Repr

/-- Whether the operands of a node are followed. -/
def Mode.follows (mode : Mode) (node : Node) : Bool :=
  mode == .full || !node.operation.needsKernel

/-- The left operand, if it is followed. -/
def Mode.left? (mode : Mode) (node : Node) : Option Operand :=
  if mode.follows node then some node.left else none

/-- The right operand, if there is one and it is followed. -/
def Mode.right? (mode : Mode) (node : Node) : Option Operand :=
  if mode.follows node then node.right else none

variable {σ : Type}

/-- Follows an operand: walks the expression at a node, or visits a leaf. -/
def follow (visitor : Visitor σ) (walk : NodeId → WalkM σ Unit) (side : Side) (id : NodeId)
    (node : Node) : Option Operand → WalkM σ Unit
  | none => pure ()
  | some (.node child) => walk child
  | some (.leaf _) => visitor.visit side id node

/-- Walks the expression at a node, at most `levels` deep. -/
def descend (mode : Mode) (g : ExprGraph) (visitor : Visitor σ) : Nat → NodeId → WalkM σ Unit
  | 0, id => throw (.cycle id)
  | levels + 1, id =>
    match g.node? id with
    | none => throw (.nodeOutOfRange id)
    | some node => do
      visitor.enter id node
      follow visitor (descend mode g visitor levels) .left id node (mode.left? node)
      visitor.visit .self id node
      follow visitor (descend mode g visitor levels) .right id node (mode.right? node)
      visitor.leave id node

/-- Walks the expression at a node. -/
def run (mode : Mode) (g : ExprGraph) (visitor : Visitor σ) (root : NodeId) : WalkM σ Unit :=
  descend mode g visitor (g.size + 1) root

theorem descend_zero (mode : Mode) (g : ExprGraph) (visitor : Visitor σ) (id : NodeId) :
    descend mode g visitor 0 id = throw (.cycle id) := rfl

theorem descend_outOfRange (mode : Mode) {g : ExprGraph} (visitor : Visitor σ) (levels : Nat)
    {id : NodeId} (h : g.node? id = none) :
    descend mode g visitor (levels + 1) id = throw (.nodeOutOfRange id) := by
  rw [descend, h]

theorem descend_node (mode : Mode) {g : ExprGraph} (visitor : Visitor σ) (levels : Nat)
    {id : NodeId} {node : Node} (h : g.node? id = some node) :
    descend mode g visitor (levels + 1) id = (do
      visitor.enter id node
      follow visitor (descend mode g visitor levels) .left id node (mode.left? node)
      visitor.visit .self id node
      follow visitor (descend mode g visitor levels) .right id node (mode.right? node)
      visitor.leave id node) := by
  rw [descend, h]

end Walk

end FusedKernel
