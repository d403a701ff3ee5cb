/-!
# Kinds of objects

A pair of tags says what is behind a leaf: the shape of an object and how it is represented.
Six of the twelve pairs make sense, and they are the values of `ObjectKind`.

Principal result: `ObjectKind.classify?_eq_some_iff` — a pair classifies to a kind
exactly when it is the pair of that kind.
-/

set_option autoImplicit false

namespace FusedKernel

/-- How many dimensions an object has. -/
inductive Shape where
  | scalar
  | vector
  | matrix
  deriving DecidableEq, Repr

/-- How an object is represented. -/
inductive Representation where
  /-- Entries in the memory of the device. -/
  | stored
  /-- A value that the host passes along. -/
  | hostScalar
  /-- A vector with all entries equal, given by their value. -/
  | constantVector
  /-- A matrix with all entries equal, given by their value. -/
  | constantMatrix
  deriving DecidableEq, Repr

namespace Shape

/-- The name of a shape in messages. -/
def name : Shape → String
  | scalar => "Scalar"
  | vector => "Vector"
  | matrix => "Matrix"

/-- Every shape. -/
def all : List Shape := [scalar, vector, matrix]

theorem mem_all (shape : Shape) : shape ∈ all := by
  cases shape <;> decide

end Shape

namespace Representation

/-- The name of a representation in messages. -/
def name : Representation → String
  | stored => "Plain"
  | hostScalar => "HostScalar"
  | constantVector => "ImplicitVector"
  | constantMatrix => "ImplicitMatrix"

/-- Every representation. -/
def all : List Representation := [stored, hostScalar, constantVector, constantMatrix]

theorem mem_all (representation : Representation) : representation ∈ all := by
  cases representation <;> decide

end Representation

/-- What can be behind a leaf. -/
inductive ObjectKind where
  | hostScalar
  | scalar
  | vector
  | constantVector
  | matrix
  | constantMatrix
  deriving DecidableEq, Repr

namespace ObjectKind

/-- The name of a kind in messages. -/
def name : ObjectKind → String
  | hostScalar => "HostScalar"
  | scalar => "Scalar"
  | vector => "Vector"
  | constantVector => "ImplicitVector"
  | matrix => "Matrix"
  | constantMatrix => "ImplicitMatrix"

/-- Every kind, in the order of declaration. -/
def all : List ObjectKind :=
  [hostScalar, scalar, vector, constantVector, matrix, constantMatrix]

theorem mem_all (kind : ObjectKind) : kind ∈ all := by
  cases kind <;> decide

/-- The tags of a kind. -/
def tags : ObjectKind → Shape × Representation
  | hostScalar => (.scalar, .hostScalar)
  | scalar => (.scalar, .stored)
  | vector => (.vector, .stored)
  | constantVector => (.vector, .constantVector)
  | matrix => (.matrix, .stored)
  | constantMatrix => (.matrix, .constantMatrix)

/-- Classifies a pair of tags. -/
def classify? : Shape → Representation → Option ObjectKind
  | .scalar, .hostScalar => some hostScalar
  | .scalar, .stored => some scalar
  | .vector, .stored => some vector
  | .vector, .constantVector => some constantVector
  | .matrix, .stored => some matrix
  | .matrix, .constantMatrix => some constantMatrix
  | .scalar, .constantVector | .scalar, .constantMatrix | .vector, .hostScalar
  | .vector, .constantMatrix | .matrix, .hostScalar | .matrix, .constantVector => none

theorem classify?_eq_some_iff {shape : Shape} {representation : Representation}
    {kind : ObjectKind} :
    classify? shape representation = some kind ↔ (shape, representation) = kind.tags := by
  cases shape <;> cases representation <;> cases kind <;> decide

@[simp] theorem classify?_tags (kind : ObjectKind) :
    classify? kind.tags.1 kind.tags.2 = some kind :=
  classify?_eq_some_iff.2 rfl

end ObjectKind

end FusedKernel
