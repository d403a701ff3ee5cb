/-!
# Operations on scalars, vectors and matrices

Three tags make up an operation: its pattern tells the shape of the computation, its phrasing
how it is written, and its operator what is computed.  The tags may be combined freely;
`Operation.canonical` is the usual combination for an operator.

* `Pattern.isReduction` — a vector, or the rows or columns of a matrix, are folded.
* `Operation.needsKernel` — the operation is not written inline.  It runs in a kernel to
  itself, and an expression only mentions the result.

Principal results: `isReduction_iff`, `needsKernel_iff` (the two classes in terms of the
tags) and `needsKernel_canonical` (which operators are computed by a kernel of their own).
-/

set_option autoImplicit false

namespace FusedKernel

/-- What a computation takes, and what it folds. -/
inductive Pattern where
  | unary
  | binary
  | product
  | vectorReduction
  | rowsReduction
  | columnsReduction
  deriving DecidableEq, Repr

def Pattern.isReduction : Pattern → Bool
  | vectorReduction | rowsReduction | columnsReduction => true
  | unary | binary | product => false

theorem Pattern.isReduction_iff {pattern : Pattern} :
    pattern.isReduction = true ↔
      pattern = vectorReduction ∨ pattern = rowsReduction ∨ pattern = columnsReduction := by
  cases pattern <;> simp [isReduction]

/-- How an operation is written. -/
inductive Phrasing where
  /-- A symbol between two operands. -/
  | infixed
  /-- A name in front of its arguments. -/
  | call
  /-- The result of another kernel. -/
  | kernelResult
  deriving DecidableEq, Repr

/-- What is computed. -/
inductive Operator where
  | abs
  | acos
  | asin
  | atan
  | ceil
  | cos
  | cosh
  | exp
  | floor
  | log
  | log10
  | sin
  | sinh
  | sqrt
  | tan
  | tanh
  | transpose
  | norm1
  | norm2
  | normInf
  | assign
  | addAssign
  | subAssign
  | add
  | sub
  | mul
  | div
  | access
  | entryMul
  | entryDiv
  | pow
  | equal
  | notEqual
  | greater
  | greaterEqual
  | less
  | lessEqual
  | max
  | min
  | innerProduct
  | matrixVectorProduct
  | matrixProduct
  deriving DecidableEq, Repr

namespace Operator

/-- How messages call an operator. -/
def name : Operator → String
  | abs => "Abs"
  | acos => "Acos"
  | asin => "Asin"
  | atan => "Atan"
  | ceil => "Ceil"
  | cos => "Cos"
  | cosh => "Cosh"
  | exp => "Exp"
  | floor => "Floor"
  | log => "Log"
  | log10 => "Log10"
  | sin => "Sin"
  | sinh => "Sinh"
  | sqrt => "Sqrt"
  | tan => "Tan"
  | tanh => "Tanh"
  | transpose => "Trans"
  | norm1 => "Norm1"
  | norm2 => "Norm2"
  | normInf => "NormInf"
  | assign => "Assign"
  | addAssign => "InplaceAdd"
  | subAssign => "InplaceSub"
  | add => "Add"
  | sub => "Sub"
  | mul => "Mult"
  | div => "Div"
  | access => "Access"
  | entryMul => "ElementProd"
  | entryDiv => "ElementDiv"
  | pow => "ElementPow"
  | equal => "ElementEq"
  | notEqual => "ElementNeq"
  | greater => "ElementGreater"
  | greaterEqual => "ElementGeq"
  | less => "ElementLess"
  | lessEqual => "ElementLeq"
  | max => "ElementFmax"
  | min => "ElementFmin"
  | innerProduct => "InnerProd"
  | matrixVectorProduct => "MatVecProd"
  | matrixProduct => "MatMatProd"

/-- Every operator, in the order of declaration. -/
def all : List Operator :=
  [abs, acos, asin, atan, ceil, cos, cosh, exp, floor, log, log10, sin, sinh, sqrt, tan, tanh,
   transpose, norm1, norm2, normInf, assign, addAssign, subAssign, add, sub, mul, div, access,
   entryMul, entryDiv, pow, equal, notEqual, greater, greaterEqual,
   less, lessEqual, max, min, innerProduct, matrixVectorProduct, matrixProduct]

theorem mem_all (operator : Operator) : operator ∈ all := by
  cases operator <;> decide

end Operator

/-- An operator, and the pattern and phrasing it is used with. -/
structure Operation where
  pattern : Pattern
  phrasing : Phrasing
  operator : Operator
  deriving DecidableEq, Repr

namespace Operation

/-- The usual tags of an operator. -/
def canonical (operator : Operator) : Operation :=
  match operator with
  | .abs | .acos | .asin | .atan | .ceil | .cos | .cosh | .exp | .floor | .log | .log10
  | .sin | .sinh | .sqrt | .tan | .tanh => ⟨.unary, .call, operator⟩
  | .transpose => ⟨.unary, .kernelResult, operator⟩
  | .norm1 | .norm2 | .normInf | .innerProduct => ⟨.vectorReduction, .kernelResult, operator⟩
  | .assign | .addAssign | .subAssign | .add | .sub | .mul | .div | .access
  | .entryMul | .entryDiv => ⟨.binary, .infixed, operator⟩
  | .pow | .equal | .notEqual | .greater | .greaterEqual | .less
  | .lessEqual | .max | .min => ⟨.binary, .call, operator⟩
  | .matrixVectorProduct => ⟨.rowsReduction, .kernelResult, operator⟩
  | .matrixProduct => ⟨.product, .kernelResult, operator⟩

@[simp] theorem operator_canonical (operator : Operator) :
    (canonical operator).operator = operator := by
  cases operator <;> rfl

/-- The operation gets a kernel to itself. -/
def needsKernel (op : Operation) : Bool :=
  op.phrasing == .kernelResult || op.pattern.isReduction

theorem needsKernel_iff (op : Operation) :
    op.needsKernel = true ↔ op.phrasing = .kernelResult ∨ op.pattern.isReduction = true := by
  simp [needsKernel]

/-- With the usual tags the phrasing alone decides. -/
theorem needsKernel_canonical (operator : Operator) :
    (canonical operator).needsKernel = true ↔ (canonical operator).phrasing = .kernelResult := by
  cases operator <;> decide

end Operation

end FusedKernel
