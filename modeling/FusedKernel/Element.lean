/-!
# Element types, precisions and elements

A leaf may be tagged with any `ElementType`.  Objects exist in two precisions only, single
and double, and their elements are raw bit patterns: nothing here computes with them, so a
not-a-number payload or the sign of a zero is never disturbed.

Principal results: `Precision.ofElementType?_elementType` (a precision is recovered from its
tag), `Element.bytes_length` and `Element.bytes_zero` (the memory image of an element).
-/

set_option autoImplicit false

namespace FusedKernel

/-- What a leaf can be tagged to consist of. -/
inductive ElementType where
  | char
  | uchar
  | short
  | ushort
  | int
  | uint
  | long
  | ulong
  | half
  | float
  | double
  deriving DecidableEq, Repr

namespace ElementType

/-- How messages call an element type. -/
def name : ElementType → String
  | char => "Char"
  | uchar => "UChar"
  | short => "Short"
  | ushort => "UShort"
  | int => "Int"
  | uint => "UInt"
  | long => "Long"
  | ulong => "ULong"
  | half => "Half"
  | float => "Float"
  | double => "Double"

/-- Every element type, in the order of declaration. -/
def all : List ElementType :=
  [char, uchar, short, ushort, int, uint, long, ulong, half, float, double]

theorem mem_all (t : ElementType) : t ∈ all := by
  cases t <;> decide

end ElementType

/-- The two precisions kernels are generated for. -/
inductive Precision where
  | single
  | double
  deriving DecidableEq, Repr

namespace Precision

/-- How many bytes an element takes. -/
def byteSize : Precision → Nat
  | single => 4
  | double => 8

/-- How kernel source spells the type of an element. -/
def kernelName : Precision → String
  | single => "float"
  | double => "double"

/-- The tag leaves of this precision carry. -/
def elementType : Precision → ElementType
  | single => .float
  | double => .double

/-- The precision a tag names, if it is one of the two. -/
def ofElementType? : ElementType → Option Precision
  | .float => some single
  | .double => some double
  | .char | .uchar | .short | .ushort | .int | .uint | .long | .ulong | .half => none

@[simp] theorem ofElementType?_elementType (p : Precision) :
    ofElementType? p.elementType = some p := by
  cases p <;> rfl

theorem ofElementType?_eq_some_iff {t : ElementType} {p : Precision} :
    ofElementType? t = some p ↔ t = p.elementType := by
  cases t <;> cases p <;> simp [ofElementType?, elementType]

theorem byteSize_pos (p : Precision) : 0 < p.byteSize := by
  cases p <;> decide

end Precision

/-! ## Elements -/

/-- The bit pattern of one element. -/
abbrev Element (p : Precision) : Type := BitVec (8 * p.byteSize)

namespace Element

variable {p : Precision}

/-- Byte number `k` of an element, counted from the least significant. -/
def byte (x : Element p) (k : Nat) : UInt8 := UInt8.ofBitVec (x.extractLsb' (8 * k) 8)

/-- The memory image of an element: least significant byte first. -/
def bytes (x : Element p) : List UInt8 := (List.range p.byteSize).map x.byte

@[simp] theorem bytes_length (x : Element p) : x.bytes.length = p.byteSize := by
  simp [bytes]

theorem getElem?_bytes (x : Element p) {k : Nat} (h : k < p.byteSize) :
    x.bytes[k]? = some (x.byte k) := by
  simp [bytes, h]

theorem bytes_zero : bytes (0 : Element p) = List.replicate p.byteSize 0 := by
  refine List.ext_getElem (by simp) fun k h _ => ?_
  simp [bytes, byte]

end Element

end FusedKernel
