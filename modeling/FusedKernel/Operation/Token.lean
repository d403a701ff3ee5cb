import FusedKernel.Error

/-!
# Tokens of operations in kernel source

Operators between operands are written as symbols, elementwise functions by name.  What a
dedicated kernel computes has a name too; twenty operators have no token at all.

Principal results: `Operator.token_eq_error_iff` (the only error is the missing token)
and `Operator.token_injective` (two operators never share a token).
-/

set_option autoImplicit false

namespace FusedKernel

namespace Operator

/-- The token of an operator, if kernels can express it. -/
def token? : Operator → Option String
  | abs => some "abs"
  | pow => some "pow"
  | assign => some "="
  | addAssign => some "+="
  | subAssign => some "-="
  | add => some "+"
  | sub => some "-"
  | mul => some "*"
  | div => some "/"
  | access => some "[]"
  | equal => some "isequal"
  | notEqual => some "isnotequal"
  | greater => some "isgreater"
  | greaterEqual => some "isgreaterequal"
  | less => some "isless"
  | lessEqual => some "islessequal"
  | max => some "fmax"
  | min => some "fmin"
  | transpose => some "trans"
  | innerProduct => some "iprod"
  | matrixProduct => some "mmprod"
  | matrixVectorProduct => some "mvprod"
  | acos | asin | atan | ceil | cos | cosh | exp | floor | log | log10 | sin | sinh | sqrt
  | tan | tanh | norm1 | norm2 | normInf | entryMul | entryDiv => none

def token (operator : Operator) : Except GenerationError String :=
  match operator.token? with
  | some text => .ok text
  | none => .error (.noToken operator)

theorem token_eq_ok_iff {operator : Operator} {text : String} :
    operator.token = .ok text ↔ operator.token? = some text := by
  unfold token
  cases operator.token? <;> simp

theorem token_eq_error_iff {operator : Operator} {e : GenerationError} :
    operator.token = .error e ↔ operator.token? = none ∧ e = .noToken operator := by
  unfold token
  cases operator.token? <;> simp [eq_comm]

theorem token_injective {k l : Operator} {text : String} (hk : k.token? = some text)
    (hl : l.token? = some text) : k = l := by
  revert hk
  cases l <;> simp only [token?, Option.some.injEq, reduceCtorEq] at hl <;> subst hl <;>
    cases k <;> simp [token?]

end Operator

end FusedKernel
