import FusedKernel.Access.SymbolTable
import FusedKernel.Operation.Token
import FusedKernel.Graph.Walk

/-!
# Text of a fused expression

An expression is written with a pair of parentheses around each of its nodes, which keeps
the text whole wherever it is inserted.  Within the parentheses an operator stands between
its operands, the arguments of a function are separated by a comma, and a node that has a
kernel to itself shows only the symbol of its result.  Leaves are written by their symbols.

* `Expression.writer` — the visitor that appends the pieces of the text.
* `Expression.text` — the text of the expression at a node.
* `Expression.appendTo` — the same, behind a given text; what a failure leaves is cut off.
* `Expression.leftText`, `Expression.rightText` — the text of one operand of a node.

Principal results: `truncate?_append`, `appendTo_eq_ok_iff` and `text_eq_appendTo_empty`.
-/

set_option autoImplicit false

namespace FusedKernel

/-- All that the text of an expression depends on, besides its root. -/
structure Context where
  graph : ExprGraph
  symbols : SymbolTable
  format : AccessFormat
  deriving Repr

namespace Expression

/-- Appends a text. -/
def emit (text : String) : WalkM String Unit := fun out => .ok () (out ++ text)

/-- Appends a text that may be missing. -/
def emitResult (text : Except GenerationError String) : WalkM String Unit :=
  match text with
  | .ok text => emit text
  | .error e => throw e

/-- The access to one side of a node. -/
def access (symbols : SymbolTable) (format : AccessFormat) (node : NodeId) (side : Side) :
    Except GenerationError String :=
  match symbols.lookup node side with
  | .ok symbol => .ok (symbol.render format)
  | .error e => .error e

/-- What opens a node: the name of a function, and a parenthesis. -/
def opening (node : Node) : Except GenerationError String :=
  match node.operation.phrasing with
  | .call =>
    match node.operation.operator.token with
    | .ok name => .ok (name ++ "(")
    | .error e => .error e
  | .infixed | .kernelResult => .ok "("

/-- What stands between the operands of a node. -/
def middle (symbols : SymbolTable) (format : AccessFormat) (id : NodeId) (node : Node) :
    Except GenerationError String :=
  match node.operation.phrasing with
  | .kernelResult => access symbols format id .self
  | .infixed => node.operation.operator.token
  | .call => .ok (if node.right.isSome then "," else "")

/-- Appends the text of an expression, piece by piece. -/
def writer (symbols : SymbolTable) (format : AccessFormat) : Visitor String where
  enter _ node := emitResult (opening node)
  visit side id node :=
    match side with
    | .self => emitResult (middle symbols format id node)
    | .left | .right => emitResult (access symbols format id side)
  leave _ _ := emit ")"

/-- Appends the text of the expression at `root`, up to the first failure. -/
def write (context : Context) (root : NodeId) : WalkM String Unit :=
  Walk.run .fused context.graph (writer context.symbols context.format) root

/-- The first bytes of a text, or nothing if they end within a character. -/
def truncate? (text : String) (bytes : Nat) : Option String :=
  String.fromUTF8? (text.toByteArray.extract 0 bytes)

/-- Appends the text of the expression at `root` to `out`.  After a failure the text is cut back to
as many bytes as `out` has. -/
def appendTo (context : Context) (root : NodeId) (out : String) :
    Except GenerationError Unit × String :=
  match write context root out with
  | .ok () out' => (.ok (), out')
  | .error e out' => (.error e, (truncate? out' out.utf8ByteSize).getD out')

/-- The text of the expression at `root`. -/
def text (context : Context) (root : NodeId) : Except GenerationError String :=
  match write context root "" with
  | .ok () out => .ok out
  | .error e _ => .error e

/-- The text of one operand of `root`. -/
def sideText (context : Context) (root : NodeId) (side : Side) :
    Option Operand → Except GenerationError String
  | some (.node child) => text context child
  | some (.leaf _) => access context.symbols context.format root side
  | none => .error (.noOperand root side)

/-- The text of the left operand of `root`. -/
def leftText (context : Context) (root : NodeId) : Except GenerationError String :=
  match context.graph.node root with
  | .error e => .error e
  | .ok node => sideText context root .left (some node.left)

/-- The text of the right operand of `root`. -/
def rightText (context : Context) (root : NodeId) : Except GenerationError String :=
  match context.graph.node root with
  | .error e => .error e
  | .ok node => sideText context root .right node.right

/-- Cutting a text back to one it begins with. -/
theorem truncate?_append (text added : String) :
    truncate? (text ++ added) text.utf8ByteSize = some text := by
  have hbytes : (text ++ added).toByteArray.extract 0 text.utf8ByteSize = text.toByteArray := by
    rw [String.toByteArray_append]
    exact ByteArray.extract_append_eq_left String.size_toByteArray.symm
  rw [truncate?, hbytes, String.fromUTF8?, dif_pos text.isValidUTF8]
  rfl

theorem appendTo_eq_ok_iff {context : Context} {root : NodeId} {out out' : String} :
    appendTo context root out = (.ok (), out') ↔ write context root out = .ok () out' := by
  unfold appendTo
  split <;> simp_all

theorem text_eq_appendTo_empty (context : Context) (root : NodeId) :
    text context root = (appendTo context root "").1.map fun _ => (appendTo context root "").2 := by
  unfold text appendTo
  split <;> rfl

end Expression

end FusedKernel
