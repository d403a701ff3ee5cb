/-!
# Sizes

Sizes and addresses are machine words.  An operation whose exact result is no word has no result,
and whoever needs one asks for it with `addSizes?` or `mulSizes?`.

Principal results: `mulSizes?_eq_some_iff`, `mulSizes?_eq_none_iff` (there is a result exactly when
the exact one is in range).
-/

set_option autoImplicit false

namespace FusedKernel

/-- Sizes and addresses stay below this bound. -/
def wordLimit : Nat := Nat.pow 2 64

/-- The sum of two sizes, if it is one. -/
def addSizes? (a b : Nat) : Option Nat := if a + b < wordLimit then some (a + b) else none

/-- The product of two sizes, if it is one. -/
def mulSizes? (a b : Nat) : Option Nat := if a * b < wordLimit then some (a * b) else none

theorem mulSizes?_eq_some_iff {a b n : Nat} :
    mulSizes? a b = some n ↔ a * b < wordLimit ∧ n = a * b := by
  unfold mulSizes?
  split
  · simp only [Option.some.injEq]; omega
  · simp only [reduceCtorEq, false_iff]; omega

theorem mulSizes?_eq_none_iff {a b : Nat} : mulSizes? a b = none ↔ wordLimit ≤ a * b := by
  unfold mulSizes?
  split <;> simp <;> omega

end FusedKernel
