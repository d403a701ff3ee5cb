import FusedKernel.Access.Format
import FusedKernel.Storage.Matrix

/-!
# Symbols of leaves

A `Symbol` says what a leaf is called in the kernel and how its elements are reached.
`Symbol.render` writes the access to the element a format selects.  Only accesses into stored
vectors and matrices mention indices and lanes.

Principal results: `render_vector`, `render_rowMajor`, `render_columnMajor` and
`render_eq_of_not_indexed` — the text of each kind of access.
-/

set_option autoImplicit false

namespace FusedKernel

/-- The name of a leaf in the kernel, and what the name stands for. -/
inductive Symbol where
  /-- A text to be copied, for instance the name of a result computed before. -/
  | verbatim (text : String)
  /-- An argument that is the value. -/
  | hostScalar (name : String)
  /-- An argument that points at the value. -/
  | scalar (name : String)
  /-- An argument that points at the entries. -/
  | vector (name : String)
  /-- An argument that points at the entries, with the text of their leading dimension. -/
  | matrix (name leadingDimension : String) (order : StorageOrder)
  /-- An argument that is the value of all entries alike. -/
  | constant (name : String)
  deriving DecidableEq, Repr

namespace Symbol

/-- The symbol is reached through index expressions. -/
def isIndexed : Symbol → Bool
  | vector _ | matrix _ _ _ => true
  | verbatim _ | hostScalar _ | scalar _ | constant _ => false

/-- The index expression of a matrix access. -/
def matrixIndex (order : StorageOrder) (first second leadingDimension : String) : String :=
  match order with
  | .rowMajor => first ++ "*" ++ leadingDimension ++ "+" ++ second
  | .columnMajor => first ++ "+" ++ second ++ "*" ++ leadingDimension

/-- The access to the element a format selects. -/
def render (format : AccessFormat) : Symbol → String
  | verbatim text => text
  | hostScalar name => name
  | scalar name => "*" ++ name
  | vector name => name ++ "[" ++ format.first ++ "]" ++ format.laneSuffix
  | matrix name leadingDimension order =>
      name ++ "[" ++ matrixIndex order format.first format.second leadingDimension ++ "]" ++
        format.laneSuffix
  | constant name => name

theorem render_vector (format : AccessFormat) (name : String) :
    render format (vector name) = name ++ "[" ++ format.first ++ "]" ++ format.laneSuffix := rfl

theorem render_rowMajor (format : AccessFormat) (name ld : String) :
    render format (matrix name ld .rowMajor) =
      name ++ "[" ++ (format.first ++ "*" ++ ld ++ "+" ++ format.second) ++ "]" ++
        format.laneSuffix := rfl

theorem render_columnMajor (format : AccessFormat) (name ld : String) :
    render format (matrix name ld .columnMajor) =
      name ++ "[" ++ (format.first ++ "+" ++ format.second ++ "*" ++ ld) ++ "]" ++
        format.laneSuffix := rfl

/-- Symbols reached without an index read the same in every format. -/
theorem render_eq_of_not_indexed {symbol : Symbol} (h : symbol.isIndexed = false)
    (format format' : AccessFormat) : symbol.render format = symbol.render format' := by
  cases symbol <;> simp_all [isIndexed, render]

end Symbol

end FusedKernel
