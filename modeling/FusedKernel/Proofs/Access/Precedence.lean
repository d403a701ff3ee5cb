import FusedKernel.Access.Symbol
import FusedKernel.Proofs.Access.Terms

/-!
# What an index text stands for

The index of a matrix access is put together from three texts of the caller: two index expressions
and a leading dimension.  None of them is looked into, and none of them is put in parentheses.  So
the multiplication sign of the index text binds the last term of the text in front of it and the
first term of the text behind it, and it reaches no further.

* `StorageOrder.offset` — the index that is meant: one index times the leading dimension, plus the
  other.  For a stored matrix it is the position of a cell (`StorageOrder.position_eq_offset`).
* `Symbol.valueIn?_matrixIndex` — the value of the text, from the terms of the three texts.

Principal results: `Symbol.matrixIndex_verdict` — exactly when an index text stands for the index
that is meant; `Symbol.matrixIndex_parenthesised` — it does when the three texts come in
parentheses.
-/

set_option autoImplicit false

namespace FusedKernel

namespace StorageOrder

variable (order : StorageOrder)

/-- The index that the leading dimension belongs to. -/
def scaled {α : Type} (first second : α) : α :=
  match order with
  | rowMajor => first
  | columnMajor => second

/-- The index that stands alone. -/
def added {α : Type} (first second : α) : α :=
  match order with
  | rowMajor => second
  | columnMajor => first

/-- The index that an access is meant for. -/
def offset (first second leadingDimension : Nat) : Nat :=
  match order with
  | rowMajor => first * leadingDimension + second
  | columnMajor => first + second * leadingDimension

theorem offset_eq (first second leadingDimension : Nat) :
    order.offset first second leadingDimension =
      order.scaled first second * leadingDimension + order.added first second := by
  cases order with
  | rowMajor => rfl
  | columnMajor => exact Nat.add_comm _ _

theorem position_eq_offset (paddedRows paddedColumns row column : Nat) :
    order.position paddedRows paddedColumns row column =
      order.offset row column (order.leadingDimension paddedRows paddedColumns) := by
  cases order <;> rfl

end StorageOrder

namespace Symbol

open Arithmetic

variable {valueOf : String → Nat} {order : StorageOrder}

theorem valueIn?_matrixIndex {first second ld : String} {before behind : List Nat} {m n k : Nat}
    (hscaled : termsIn? valueOf (order.scaled first second).toList = some (before ++ [m]))
    (hld : termsIn? valueOf ld.toList = some (n :: behind))
    (hadded : valueIn? valueOf (order.added first second).toList = some k) :
    valueIn? valueOf (matrixIndex order first second ld).toList =
      some (before.sum + m * n + behind.sum + k) := by
  obtain ⟨ks, hks, rfl⟩ := valueIn?_eq_some_iff.1 hadded
  rw [valueIn?_eq_some_iff]
  cases order with
  | rowMajor =>
    have htext : (matrixIndex .rowMajor first second ld).toList =
        (first.toList ++ '*' :: ld.toList) ++ '+' :: second.toList := by simp [matrixIndex]
    refine ⟨_, htext ▸ termsIn?_plus (termsIn?_times hscaled hld) hks, ?_⟩
    simp only [List.sum_append, List.sum_cons]
    omega
  | columnMajor =>
    have htext : (matrixIndex .columnMajor first second ld).toList =
        (first.toList ++ '+' :: second.toList) ++ '*' :: ld.toList := by simp [matrixIndex]
    have hsum := termsIn?_plus hks hscaled
    rw [← List.append_assoc] at hsum
    refine ⟨_, htext ▸ termsIn?_times hsum hld, ?_⟩
    simp only [List.sum_append, List.sum_cons]
    omega

/-- **What an index text stands for.**  Only the last term of the index in front of the
multiplication sign and the first term of the leading dimension behind it are multiplied; all other
terms are added as they are.  The text stands for the index that is meant exactly when the products
it misses make up for the terms it adds; in particular, when neither of the two has another term. -/
theorem matrixIndex_verdict (format : AccessFormat) (name ld : String) (order : StorageOrder)
    (hfirst : IsExpression format.first.toList) (hsecond : IsExpression format.second.toList)
    (hld : IsExpression ld.toList) :
    ∃ index, (matrix name ld order).render format =
        name ++ "[" ++ index ++ "]" ++ format.laneSuffix ∧
      ∀ valueOf, ∃ first second leadingDimension before m n behind,
        valueIn? valueOf format.first.toList = some first ∧
        valueIn? valueOf format.second.toList = some second ∧
        valueIn? valueOf ld.toList = some leadingDimension ∧
        termsIn? valueOf (order.scaled format.first format.second).toList =
          some (before ++ [m]) ∧
        termsIn? valueOf ld.toList = some (n :: behind) ∧
        valueIn? valueOf index.toList =
          some (before.sum + m * n + behind.sum + order.added first second) ∧
        (valueIn? valueOf index.toList = some (order.offset first second leadingDimension) ↔
          before.sum * leadingDimension + m * behind.sum = before.sum + behind.sum) := by
  refine ⟨_, rfl, fun valueOf => ?_⟩
  obtain ⟨first, hfirst⟩ := (isExpression_iff valueOf _).1 hfirst
  obtain ⟨second, hsecond⟩ := (isExpression_iff valueOf _).1 hsecond
  obtain ⟨ns, hns⟩ := hld.exists_termsIn? valueOf
  have hscaled : valueIn? valueOf (order.scaled format.first format.second).toList =
      some (order.scaled first second) := by cases order <;> assumption
  have hadded : valueIn? valueOf (order.added format.first format.second).toList =
      some (order.added first second) := by cases order <;> assumption
  obtain ⟨ms, hms, hsum⟩ := valueIn?_eq_some_iff.1 hscaled
  obtain ⟨before, m, rfl⟩ := ms.eq_nil_or_concat'.resolve_left (ne_nil_of_termsIn? hms)
  obtain ⟨n, behind, rfl⟩ := List.exists_cons_of_ne_nil (ne_nil_of_termsIn? hns)
  have hindex := valueIn?_matrixIndex hms hns hadded
  refine ⟨first, second, _, before, m, n, behind, hfirst, hsecond,
    valueIn?_eq_some_iff.2 ⟨_, hns, rfl⟩, hms, hns, hindex, ?_⟩
  rw [hindex, order.offset_eq, ← hsum, Option.some.injEq, List.sum_append, List.sum_singleton,
    List.sum_cons]
  have hproduct : (before.sum + m) * (n + behind.sum) =
      before.sum * (n + behind.sum) + (m * n + m * behind.sum) := by
    rw [Nat.add_mul, Nat.mul_add m]
  omega

/-- A column index that is a product and a leading dimension in parentheses have one term each. -/
theorem matrixIndex_verdict_oneTerm :
    ∃ index, (matrix "A" "(b+2)" .columnMajor).render (.ofIndices "a+1" "(a+b)*2") =
        "A" ++ "[" ++ index ++ "]" ++ "" ∧
      valueIn? (fun _ => 3) index.toList = some (StorageOrder.columnMajor.offset 4 12 5) := by
  obtain ⟨index, hindex, hvalues⟩ :=
    matrixIndex_verdict (.ofIndices "a+1" "(a+b)*2") "A" "(b+2)" .columnMajor (by decide)
      (by decide) (by decide)
  obtain ⟨first, second, leadingDimension, before, m, n, behind, hfirst, hsecond, hld, hscaled,
    hbehind, _, hmeant⟩ := hvalues fun _ => 3
  have hterms : some [12] = some (before ++ [m]) := hscaled
  have hterms' : some [5] = some (n :: behind) := hbehind
  obtain ⟨rfl, -⟩ := List.append_inj' (Option.some.inj hterms : [] ++ [12] = before ++ [m]) rfl
  obtain rfl : first = 4 := (Option.some.inj hfirst).symm
  obtain rfl : second = 12 := (Option.some.inj hsecond).symm
  obtain rfl : leadingDimension = 5 := (Option.some.inj hld).symm
  cases hterms'
  exact ⟨index, hindex, hmeant.2 rfl⟩

/-- The first term of an index that is a sum is not multiplied. -/
theorem matrixIndex_sum_scaled_in_part :
    IsExpression "a+b".toList ∧ IsExpression "d".toList ∧ IsExpression "c".toList ∧
      (matrix "A" "c" .rowMajor).render (.ofIndices "a+b" "d") =
        "A" ++ "[" ++ "a+b*c+d" ++ "]" ++ "" ∧
      valueIn? (fun _ => 2) "a+b".toList = some 4 ∧ valueIn? (fun _ => 2) "d".toList = some 2 ∧
      valueIn? (fun _ => 2) "c".toList = some 2 ∧
      valueIn? (fun _ => 2) "a+b*c+d".toList = some 8 ∧
      StorageOrder.rowMajor.offset 4 2 2 = 10 := by
  decide

/-- An index text put together from texts in parentheses stands for the index that is meant. -/
theorem matrixIndex_parenthesised {first second ld : String} {i j k : Nat}
    (hfirst : valueIn? valueOf first.toList = some i)
    (hsecond : valueIn? valueOf second.toList = some j)
    (hld : valueIn? valueOf ld.toList = some k) :
    valueIn? valueOf
        (matrixIndex order ("(" ++ first ++ ")") ("(" ++ second ++ ")") ("(" ++ ld ++ ")")).toList =
      some (order.offset i j k) := by
  have hgroup : ∀ {text : String} {v : Nat}, valueIn? valueOf text.toList = some v →
      termsIn? valueOf ("(" ++ text ++ ")").toList = some [v] := by
    intro text v hvalue
    have htext : ("(" ++ text ++ ")").toList = '(' :: text.toList ++ [')'] := by simp
    exact htext ▸ termsIn?_group hvalue
  have hi := hgroup hfirst
  have hj := hgroup hsecond
  have hscaled : termsIn? valueOf (order.scaled ("(" ++ first ++ ")") ("(" ++ second ++ ")")).toList
      = some ([] ++ [order.scaled i j]) := by cases order <;> assumption
  have hadded : termsIn? valueOf (order.added ("(" ++ first ++ ")") ("(" ++ second ++ ")")).toList
      = some [order.added i j] := by cases order <;> assumption
  rw [valueIn?_matrixIndex hscaled (hgroup hld)
    (valueIn?_eq_some_iff.2 ⟨_, hadded, List.sum_singleton⟩), order.offset_eq]
  simp

end Symbol

end FusedKernel
