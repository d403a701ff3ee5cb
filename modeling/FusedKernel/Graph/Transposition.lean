import FusedKernel.Graph

/-!
# Which operands are read transposed

Kernels expect matrices stored column after column.  A matrix stored row after row is the
transpose of what they expect, so it is read transposed.  A transposition in the expression
is read transposed too, unless it is applied to a matrix stored row after row: there the two
undo each other.  What is below the operand of a transposition does not matter.

Principal results: `readsTransposed_leaf`, `readsTransposed_transpose`.
-/

set_option autoImplicit false

namespace FusedKernel

/-- The operand is a leaf stored row after row. -/
def Operand.isRowMajor : Operand → Bool
  | leaf l => l.isRowMajor
  | node _ => false

/-- Whether a kernel reads an operand transposed. -/
def ExprGraph.readsTransposed (g : ExprGraph) : Operand → Bool
  | .leaf l => l.isRowMajor
  | .node id =>
    match g.node? id with
    | some node => node.operation.operator == .transpose && !node.left.isRowMajor
    | none => false

namespace ExprGraph

theorem readsTransposed_leaf (g : ExprGraph) (l : Leaf) :
    g.readsTransposed (.leaf l) = l.isRowMajor := rfl

theorem readsTransposed_transpose {g : ExprGraph} {id : NodeId} {node : Node}
    (h : g.node? id = some node) (hop : node.operation.operator = .transpose) :
    g.readsTransposed (.node id) = !node.left.isRowMajor := by
  simp [readsTransposed, h, hop]

end ExprGraph

end FusedKernel
