import FusedKernel.Graph.Walk
import Mathlib.Logic.Relation

/-!
# Paths along operands

`ExprGraph.Uses` relates a node to the nodes among its operands; `ExprGraph.Leads` keeps only
the operands a walk follows, so a full walk follows all of them.  A node is reached from
another one along zero or more such steps, and lies on a cycle if it is reached from itself
along at least one.

Principal results: `uses_iff_of_node?` and `leads_full_iff`; `Fault.not_closed_or_not_acyclic`
— what an error of a check says about the graph rules out that the graph is in order.
-/

set_option autoImplicit false

namespace FusedKernel

open Relation

/-- The leaf of all instances: neither walks nor texts depend on what a leaf holds. -/
def Walk.anyLeaf : Operand := .leaf (.ofObject (p := .single) (.hostScalar 0))

/-- The child is an operand of the node. -/
def Node.Uses (node : Node) (child : NodeId) : Prop :=
  node.left = .node child ∨ node.right = some (.node child)

/-- A fused walk follows nothing below a node with a kernel to itself. -/
theorem Walk.Mode.fused_of_needsKernel {node : Node} (h : node.operation.needsKernel = true) :
    Walk.Mode.fused.left? node = none ∧ Walk.Mode.fused.right? node = none := by
  simp [Walk.Mode.left?, Walk.Mode.right?, Walk.Mode.follows, h]

/-- A fused walk follows both operands of any other node. -/
theorem Walk.Mode.fused_of_inline {node : Node} (h : node.operation.needsKernel = false) :
    Walk.Mode.fused.left? node = some node.left ∧
      Walk.Mode.fused.right? node = node.right := by
  simp [Walk.Mode.left?, Walk.Mode.right?, Walk.Mode.follows, h]

namespace ExprGraph

variable {g : ExprGraph} {mode : Walk.Mode}

/-- One node is an operand of another one. -/
def Uses (g : ExprGraph) (parent child : NodeId) : Prop :=
  ∃ node, g.node? parent = some node ∧ node.Uses child

/-- A walk follows an operand of one node to another one. -/
def Leads (g : ExprGraph) (mode : Walk.Mode) (parent child : NodeId) : Prop :=
  ∃ node, g.node? parent = some node ∧
    (mode.left? node = some (.node child) ∨ mode.right? node = some (.node child))

/-- Operands only use numbers of nodes. -/
def Closed (g : ExprGraph) : Prop := ∀ parent child, g.Uses parent child → child < g.size

/-- No node uses itself, directly or through others. -/
def Acyclic (g : ExprGraph) : Prop := ∀ id, ¬TransGen g.Uses id id

/-- What it takes for an error to be justified: the missing node is an operand and out of
range, or the node is in range and uses itself. -/
def Fault (g : ExprGraph) (e : GenerationError) : Prop :=
  (∃ id, e = .nodeOutOfRange id ∧ g.size ≤ id ∧ ∃ parent, g.Uses parent id) ∨
    ∃ id, e = .cycle id ∧ id < g.size ∧ TransGen g.Uses id id

theorem uses_iff_of_node? {parent child : NodeId} {node : Node}
    (h : g.node? parent = some node) : g.Uses parent child ↔ node.Uses child := by
  constructor
  · rintro ⟨node', h', huses⟩
    rw [h] at h'
    cases h'
    exact huses
  · intro huses
    exact ⟨node, h, huses⟩

theorem Uses.lt_size {parent child : NodeId} (h : g.Uses parent child) : parent < g.size := by
  obtain ⟨node, hnode, _⟩ := h
  exact node?_eq_some_lt hnode

/-- A full walk follows every operand. -/
theorem leads_full_iff {parent child : NodeId} :
    g.Leads .full parent child ↔ g.Uses parent child := by
  simp [Leads, Uses, Node.Uses, Walk.Mode.left?, Walk.Mode.right?, Walk.Mode.follows]

/-- What a walk follows is an operand. -/
theorem Leads.uses {parent child : NodeId} (h : g.Leads mode parent child) :
    g.Uses parent child := by
  obtain ⟨node, hnode, hchild⟩ := h
  refine ⟨node, hnode, ?_⟩
  simp only [Walk.Mode.left?, Walk.Mode.right?] at hchild
  split at hchild
  · simpa [Node.Uses] using hchild
  · simp at hchild

theorem leads_full (g : ExprGraph) : g.Leads .full = g.Uses := by
  funext parent child
  exact propext leads_full_iff

theorem lt_size_of_transGen {parent child : NodeId} (h : TransGen g.Uses parent child) :
    parent < g.size := by
  obtain ⟨next, hnext, _⟩ := TransGen.head'_iff.1 h
  exact hnext.lt_size

theorem Fault.not_closed_or_not_acyclic {e : GenerationError} (h : g.Fault e) :
    ¬(g.Closed ∧ g.Acyclic) := by
  rintro ⟨hclosed, hacyclic⟩
  rcases h with ⟨id, _, hge, parent, huses⟩ | ⟨id, _, _, hcycle⟩
  · exact Nat.not_lt.2 hge (hclosed parent id huses)
  · exact hacyclic id hcycle

end ExprGraph

end FusedKernel
