import FusedKernel.Error
import FusedKernel.Leaf.Object

/-!
# Graphs of expressions

An `ExprGraph` is a sequence of nodes numbered from zero, and an operand is either a leaf or
the number of a node.  Expressions can share their parts.  The graph should be acyclic, but
nothing here forbids a node to use itself, or a number that no node has.

Principal results: `ExprGraph.node_eq_ok_iff`, `ExprGraph.node?_push` (pushing appends one
node and keeps the others).
-/

set_option autoImplicit false

namespace FusedKernel

/-- What an operation is applied to. -/
inductive Operand where
  | leaf (leaf : Leaf)
  /-- The expression at a node. -/
  | node (id : NodeId)
  deriving Repr

def Operand.isLeaf : Operand → Bool
  | leaf _ => true
  | node _ => false

/-- An operation applied to one or two operands. -/
structure Node where
  operation : Operation
  left : Operand
  right : Option Operand
  deriving Repr

/-- Nodes in the order of their numbers. -/
structure ExprGraph where
  nodes : Array Node
  deriving Repr

namespace ExprGraph

def empty : ExprGraph := ⟨#[]⟩

/-- Number of nodes. -/
def size (g : ExprGraph) : Nat := g.nodes.size

def isEmpty (g : ExprGraph) : Bool := g.nodes.isEmpty

/-- The node at an id known to be in range. -/
def get (g : ExprGraph) (id : Fin g.size) : Node :=
  have : id.val < g.nodes.size := id.isLt
  g.nodes[id.val]

def node? (g : ExprGraph) (id : NodeId) : Option Node := g.nodes[id]?

def node (g : ExprGraph) (id : NodeId) : Except GenerationError Node :=
  match g.node? id with
  | some node => .ok node
  | none => .error (.nodeOutOfRange id)

/-- Appends a node; its id comes with the new graph. -/
def push (g : ExprGraph) (node : Node) : ExprGraph × NodeId :=
  (⟨g.nodes.push node⟩, g.size)

theorem node_eq_ok_iff {g : ExprGraph} {id : NodeId} {node : Node} :
    g.node id = .ok node ↔ g.node? id = some node := by
  unfold ExprGraph.node
  cases g.node? id <;> simp

theorem node_eq_error_iff {g : ExprGraph} {id : NodeId} {e : GenerationError} :
    g.node id = .error e ↔ g.size ≤ id ∧ e = .nodeOutOfRange id := by
  unfold ExprGraph.node node? size
  cases h : g.nodes[id]? with
  | none => simp only [Array.getElem?_eq_none_iff] at h; simp [h, eq_comm]
  | some n => have := (Array.getElem?_eq_some_iff.1 h).1; simp; omega

theorem node?_eq_some_lt {g : ExprGraph} {id : NodeId} {node : Node}
    (h : g.node? id = some node) : id < g.size :=
  (Array.getElem?_eq_some_iff.1 h).1

theorem node?_eq_get (g : ExprGraph) (id : Fin g.size) :
    g.node? id = some (g.get id) :=
  Array.getElem?_eq_getElem id.isLt

theorem node?_push (g : ExprGraph) (node : Node) (id : NodeId) :
    (g.push node).1.node? id = if id = g.size then some node else g.node? id :=
  Array.getElem?_push

end ExprGraph

end FusedKernel
