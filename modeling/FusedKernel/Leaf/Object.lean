import FusedKernel.Leaf.Kind
import FusedKernel.Storage.Matrix
import FusedKernel.Storage.Vector

/-!
# Leaves and the objects they point to

A `LeafObject` has a kind and a precision.  A `Leaf` is an object with tags.
`Leaf.ofObject` takes the tags from the object; a leaf put together from parts may carry any
tags, and nobody objects before the leaf is used.

Principal result: `Leaf.describes_ofObject` — tags taken from an object describe it.
-/

set_option autoImplicit false

namespace FusedKernel

/-- An object of some kind, with elements of precision `p`. -/
inductive LeafObject (p : Precision) where
  | hostScalar (value : Element p)
  | scalar (scalar : StoredScalar p)
  | vector (vector : StoredVector p)
  | constantVector (vector : ConstantVector p)
  | matrix (matrix : StoredMatrix p)
  | constantMatrix (matrix : ConstantMatrix p)
  deriving DecidableEq, Repr

def LeafObject.kind {p : Precision} : LeafObject p → ObjectKind
  | hostScalar _ => .hostScalar
  | scalar _ => .scalar
  | vector _ => .vector
  | constantVector _ => .constantVector
  | matrix _ => .matrix
  | constantMatrix _ => .constantMatrix

/-- An operand that is not an expression: an object, and what is said about it. -/
structure Leaf where
  shape : Shape
  representation : Representation
  elementType : ElementType
  precision : Precision
  object : LeafObject precision
  deriving Repr

namespace Leaf

/-- Tags an object as what it is. -/
def ofObject {p : Precision} (object : LeafObject p) : Leaf where
  shape := object.kind.tags.1
  representation := object.kind.tags.2
  elementType := p.elementType
  precision := p
  object

/-- The tags of a leaf describe its object. -/
structure Describes (leaf : Leaf) : Prop where
  tags : (leaf.shape, leaf.representation) = leaf.object.kind.tags
  elementType : leaf.elementType = leaf.precision.elementType

theorem describes_ofObject {p : Precision} (object : LeafObject p) :
    (ofObject object).Describes :=
  ⟨rfl, rfl⟩

/-- The leaf is tagged as a stored matrix, is one, and stores it row after row. -/
def isRowMajor (leaf : Leaf) : Bool :=
  leaf.shape == .matrix && leaf.representation == .stored &&
    leaf.elementType == leaf.precision.elementType &&
    match leaf.object with
    | .matrix m => m.isRowMajor
    | .hostScalar _ | .scalar _ | .vector _ | .constantVector _ | .constantMatrix _ => false

end Leaf

end FusedKernel
