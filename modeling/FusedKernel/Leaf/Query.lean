import FusedKernel.Leaf.Function

/-!
# What argument binding asks of a leaf

The size of an element, the padded sizes and the buffer of a leaf are `LeafFunction`s, so a
wrongly tagged leaf fails all of them alike.  Only matrices have padded dimensions, and only
what the device stores has a buffer.
-/

set_option autoImplicit false

namespace FusedKernel

namespace LeafFunction

/-- How many bytes an element takes. -/
def elementSize : LeafFunction Nat where
  hostScalar p _ := p.byteSize
  scalar p _ := p.byteSize
  vector p _ := p.byteSize
  constantVector p _ := p.byteSize
  matrix p _ := p.byteSize
  constantMatrix p _ := p.byteSize

/-- How many elements there are, those of the padding too.  Stored objects bound their own number
of elements.  For a constant matrix the product is taken without bound: the case that it is no
machine word, in which there is no answer on machine words, is not told apart here
(`LeafObject.InRange` excludes it). -/
def paddedSize : LeafFunction Nat where
  hostScalar _ _ := 1
  scalar _ _ := 1
  vector _ v := v.paddedSize
  constantVector _ v := v.size
  matrix _ m := m.paddedSize
  constantMatrix _ m := m.rows * m.columns

/-- A function that is defined on matrices only. -/
def ofMatrix {α : Type} (request : LeafRequest) (stored : (p : Precision) → StoredMatrix p → α)
    (constant : (p : Precision) → ConstantMatrix p → α) :
    LeafFunction (Except GenerationError α) where
  hostScalar p _ := .error (.unsupportedLeaf request .hostScalar p.elementType)
  scalar p _ := .error (.unsupportedLeaf request .scalar p.elementType)
  vector p _ := .error (.unsupportedLeaf request .vector p.elementType)
  constantVector p _ := .error (.unsupportedLeaf request .constantVector p.elementType)
  matrix p m := .ok (stored p m)
  constantMatrix p m := .ok (constant p m)

/-- How many rows there are, those of the padding too. -/
def paddedRows : LeafFunction (Except GenerationError Nat) :=
  ofMatrix .paddedRows (fun _ m => m.paddedRows) fun _ m => m.rows

/-- How many columns there are, those of the padding too. -/
def paddedColumns : LeafFunction (Except GenerationError Nat) :=
  ofMatrix .paddedColumns (fun _ m => m.paddedColumns) fun _ m => m.columns

/-- The buffer that holds the elements. -/
def buffer : LeafFunction (Except GenerationError Buffer) where
  hostScalar p _ := .error (.unsupportedLeaf .buffer .hostScalar p.elementType)
  scalar _ s := .ok s.buffer
  vector _ v := .ok v.buffer
  constantVector p _ := .error (.unsupportedLeaf .buffer .constantVector p.elementType)
  matrix _ m := .ok m.buffer
  constantMatrix p _ := .error (.unsupportedLeaf .buffer .constantMatrix p.elementType)

end LeafFunction

namespace Leaf

def elementSize (leaf : Leaf) : Except GenerationError Nat :=
  LeafFunction.elementSize.run leaf

def paddedSize (leaf : Leaf) : Except GenerationError Nat :=
  LeafFunction.paddedSize.run leaf

def paddedRows (leaf : Leaf) : Except GenerationError Nat :=
  (LeafFunction.paddedRows.run leaf).bind id

def paddedColumns (leaf : Leaf) : Except GenerationError Nat :=
  (LeafFunction.paddedColumns.run leaf).bind id

def buffer (leaf : Leaf) : Except GenerationError Buffer :=
  (LeafFunction.buffer.run leaf).bind id

end Leaf

end FusedKernel
