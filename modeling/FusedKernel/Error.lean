import FusedKernel.Leaf.Kind
import FusedKernel.Element
import FusedKernel.Operation
import FusedKernel.Graph.Side

/-!
# What can stop a generation

An error ends the generation in which it arises, and no text is produced.  `GenerationError`
lists the causes, `GenerationError.message` words them.

Principal result: `ObjectKind.classify_eq_ok_iff` — classifying a pair of tags fails only
where no kind has that pair.
-/

set_option autoImplicit false

namespace FusedKernel

/-- What was asked of a leaf that could not give it. -/
inductive LeafRequest where
  /-- To be taken for an object of this kind. -/
  | use (kind : ObjectKind)
  | paddedRows
  | paddedColumns
  | buffer
  deriving DecidableEq, Repr

namespace LeafRequest

/-- How messages call a request. -/
def name : LeafRequest → String
  | use .hostScalar => "call_on_host_scalar"
  | use .scalar => "call_on_scalar"
  | use .vector => "call_on_vector"
  | use .constantVector => "call_on_implicit_vector"
  | use .matrix => "call_on_matrix"
  | use .constantMatrix => "call_on_implicit_matrix"
  | paddedRows => "internal_size1"
  | paddedColumns => "internal_size2"
  | buffer => "handle"

end LeafRequest

/-- Why a generation ends without a text. -/
inductive GenerationError where
  /-- Kernels cannot express the operation. -/
  | noToken (operator : Operator)
  /-- The tag names neither of the two precisions. -/
  | noPrecision (elementType : ElementType)
  /-- No kind has this pair of tags. -/
  | unknownKind (shape : Shape) (representation : Representation)
  /-- A leaf of this kind cannot grant the request. -/
  | unsupportedLeaf (request : LeafRequest) (kind : ObjectKind) (elementType : ElementType)
  /-- The symbol table has nothing for this side of the node. -/
  | unmapped (node : NodeId) (side : Side)
  | noOperand (node : NodeId) (side : Side)
  | nodeOutOfRange (id : NodeId)
  | cycle (node : NodeId)
  | laneOutOfRange (lane : Nat)
  deriving DecidableEq, Repr

namespace GenerationError

/-- The wording of an error. -/
def message : GenerationError → String
  | noToken operator =>
      s!"Unsupported operator {operator.name}: it has no source token in the generator"
  | noPrecision elementType =>
      s!"Unsupported numeric type {elementType.name}, only float and double leaves can be generated"
  | unknownKind shape representation =>
      s!"Unsupported datastructure type {shape.name} with subtype {representation.name}" ++
        ": not among \x7bScalar, Vector, Matrix\x7d"
  | unsupportedLeaf request kind elementType =>
      s!"{request.name} is not implemented for a {elementType.name} {kind.name} leaf"
  | unmapped node side =>
      s!"No mapped symbol for node #{node} in role {side.name}" ++
        ", the mapping pass didn't cover this statement"
  | noOperand node side => s!"Node #{node} has no {side.name} operand"
  | nodeOutOfRange id => s!"Node index {id} is out of the statement bounds"
  | cycle node => s!"Statement is not acyclic, node #{node} is reachable from itself"
  | laneOutOfRange lane => s!"SIMD lane {lane} is out of range, lanes go from 0 to 15"

end GenerationError

/-- How kernel source spells an element type. -/
def ElementType.kernelName (t : ElementType) : Except GenerationError String :=
  match Precision.ofElementType? t with
  | some p => .ok p.kernelName
  | none => .error (.noPrecision t)

/-- Classifies a pair of tags, or reports it. -/
def ObjectKind.classify (shape : Shape) (representation : Representation) :
    Except GenerationError ObjectKind :=
  match ObjectKind.classify? shape representation with
  | some kind => .ok kind
  | none => .error (.unknownKind shape representation)

theorem ObjectKind.classify_eq_ok_iff {shape : Shape} {representation : Representation}
    {kind : ObjectKind} :
    ObjectKind.classify shape representation = .ok kind ↔
      (shape, representation) = kind.tags := by
  rw [← ObjectKind.classify?_eq_some_iff]
  unfold ObjectKind.classify
  split <;> simp_all

end FusedKernel
