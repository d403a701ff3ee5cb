import FusedKernel.Kernel.Body

/-!
# Runs of assembly steps

A kernel body is assembled by a sequence of `Step`s.  Opening a scope indents until the scope
is closed; scopes still open when the steps end are closed then, so that
`Step.closeScopes` completes a sequence.

Principal result: `run_append` — a run can be stopped and resumed between any two steps.
-/

set_option autoImplicit false

namespace FusedKernel

/-- One step of assembling a kernel body. -/
inductive Step where
  | write (text : String)
  | writeLine (line : String)
  | indent
  | dedent
  | openScope
  | closeScope
  /-- Writes the expression at a node as a line of its own. -/
  | expression (root : NodeId)
  deriving DecidableEq, Repr

namespace Step

/-- Performs a step; only writing an expression can fail. -/
def perform (context : Context) (step : Step) (body : KernelBody) :
    Except GenerationError Unit × KernelBody :=
  match step with
  | write text => (.ok (), body.write text)
  | writeLine line => (.ok (), body.writeLine line)
  | indent | openScope => (.ok (), body.indent)
  | dedent | closeScope => (.ok (), body.dedent)
  | expression root => body.writeExpression context root

/-- The body after all steps; an expression that fails is skipped. -/
def run (context : Context) (steps : List Step) (body : KernelBody) : KernelBody :=
  steps.foldl (fun body step => (step.perform context body).2) body

/-- For every step, whether it failed and the body after it. -/
def history (context : Context) :
    List Step → KernelBody → List (Except GenerationError Unit × KernelBody)
  | [], _ => []
  | step :: steps, body =>
    let outcome := step.perform context body
    outcome :: history context steps outcome.2

/-- Number of scopes open after the steps, when `count` were open before. -/
def openScopes (count : Nat) : List Step → Nat
  | [] => count
  | openScope :: steps => openScopes (count + 1) steps
  | closeScope :: steps => openScopes (count - 1) steps
  | write _ :: steps | writeLine _ :: steps | indent :: steps | dedent :: steps
  | expression _ :: steps => openScopes count steps

/-- The steps, followed by the closing of every scope they leave open. -/
def closeScopes (steps : List Step) : List Step :=
  steps ++ List.replicate (openScopes 0 steps) closeScope

theorem run_append (context : Context) (steps steps' : List Step) (body : KernelBody) :
    run context (steps ++ steps') body = run context steps' (run context steps body) := by
  simp [run]

end Step

end FusedKernel
