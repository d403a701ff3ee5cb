import FusedKernel.Graph.Transposition
import FusedKernel.Proofs.Storage.Capacity
import Mathlib.Algebra.Ring.Parity

/-!
# Transpositions of transpositions

A matrix that is transposed an even number of times is the matrix again, and storage row after row
counts as one transposition.  So an operand should be read transposed when that number is odd.  It
is for a leaf and for one transposition over it.  But a transposition looks at its operand alone
and at nothing below, and an operand that is a node never undoes it.  From two transpositions on,
all operands are read transposed.

* `ExprGraph.Transposes` — so many transpositions, one over the other, over a leaf.
* `Leaf.OddlyTransposed` — the number of transpositions is odd, storage row after row included.

Principal results: `Transposes.readsTransposed_iff` — what is read transposed;
`transposition_verdict` — when that is as the number demands, and when a transposition undoes the
one it is applied to.
-/

set_option autoImplicit false

namespace FusedKernel

namespace Leaf

/-- Storage row after row and `count` transpositions make an odd number of transpositions. -/
def OddlyTransposed (leaf : Leaf) (count : Nat) : Prop :=
  Odd count ∧ leaf.isRowMajor = false ∨ Even count ∧ leaf.isRowMajor = true

theorem isRowMajor_ofMatrix {p : Precision} (m : StoredMatrix p) :
    (ofObject (.matrix m)).isRowMajor = (m.order == .rowMajor) := by
  simp [ofObject, isRowMajor, LeafObject.kind, ObjectKind.tags, StoredMatrix.isRowMajor]

end Leaf

namespace ExprGraph

/-- The operand is `count` transpositions, each applied to the next, and the last to a leaf. -/
inductive Transposes (g : ExprGraph) (leaf : Leaf) : Nat → Operand → Prop
  | leaf : g.Transposes leaf 0 (.leaf leaf)
  | node {count : Nat} {id : NodeId} {node : Node} (hnode : g.node? id = some node)
      (htranspose : node.operation.operator = .transpose)
      (hleft : g.Transposes leaf count node.left) : g.Transposes leaf (count + 1) (.node id)

variable {g : ExprGraph} {leaf : Leaf} {count : Nat} {operand : Operand}

/-- Only a leaf stored row after row undoes the transposition it is the operand of. -/
theorem Transposes.isRowMajor_iff (h : g.Transposes leaf count operand) :
    operand.isRowMajor = true ↔ count = 0 ∧ leaf.isRowMajor = true := by
  cases h with
  | leaf => simp [Operand.isRowMajor]
  | node => simp [Operand.isRowMajor]

/-- **What is read transposed.**  A leaf stored row after row, a transposition over any other leaf,
and all transpositions over transpositions. -/
theorem Transposes.readsTransposed_iff (h : g.Transposes leaf count operand) :
    g.readsTransposed operand = true ↔
      count = 0 ∧ leaf.isRowMajor = true ∨ count = 1 ∧ leaf.isRowMajor = false ∨ 2 ≤ count := by
  cases h with
  | leaf => simp [readsTransposed_leaf]
  | @node below id node hnode htranspose hleft =>
    -- All that counts is whether the operand is the leaf itself.
    rw [readsTransposed_transpose hnode htranspose, Bool.not_eq_true', ← Bool.not_eq_true,
      hleft.isRowMajor_iff]
    cases leaf.isRowMajor <;> simp <;> omega

/-- The numbers of transpositions for which reading goes by whether they are odd. -/
theorem Transposes.readsTransposed_iff_oddlyTransposed (h : g.Transposes leaf count operand) :
    (g.readsTransposed operand = true ↔ leaf.OddlyTransposed count) ↔
      count < 2 ∨ leaf.OddlyTransposed count := by
  rw [h.readsTransposed_iff]
  rcases Nat.lt_or_ge count 2 with hfew | hmany
  · have hcount : count = 0 ∨ count = 1 := by omega
    rcases hcount with rfl | rfl <;> simp [Leaf.OddlyTransposed]
  · simp [hmany, Nat.not_lt.2 hmany]

/-- A transposition undoes what is below it, unless it is applied to a node read transposed. -/
theorem readsTransposed_eq_not_iff {id : NodeId} {node : Node} (hnode : g.node? id = some node)
    (htranspose : node.operation.operator = .transpose) :
    g.readsTransposed (.node id) = (!g.readsTransposed node.left) ↔
      ∀ below, node.left = .node below → g.readsTransposed (.node below) = false := by
  rw [readsTransposed_transpose hnode htranspose]
  cases node.left with
  | leaf l => simp [Operand.isRowMajor, readsTransposed_leaf]
  | node below => simp [Operand.isRowMajor]

/-- **When transpositions cancel.**  Transpositions over a leaf are read as their number demands
for less than two of them, and otherwise exactly when that number is odd, as all of those are read
transposed.  A transposition reverses how its operand is read exactly when that operand is no node
read transposed. -/
theorem transposition_verdict (g : ExprGraph) :
    (∀ leaf count operand, g.Transposes leaf count operand →
      (g.readsTransposed operand = true ↔
        count = 0 ∧ leaf.isRowMajor = true ∨ count = 1 ∧ leaf.isRowMajor = false ∨ 2 ≤ count) ∧
      ((g.readsTransposed operand = true ↔ leaf.OddlyTransposed count) ↔
        count < 2 ∨ leaf.OddlyTransposed count)) ∧
    ∀ id node, g.node? id = some node → node.operation.operator = .transpose →
      (g.readsTransposed (.node id) = (!g.readsTransposed node.left) ↔
        ∀ below, node.left = .node below → g.readsTransposed (.node below) = false) :=
  ⟨fun _ _ _ h => ⟨h.readsTransposed_iff, h.readsTransposed_iff_oddlyTransposed⟩,
    fun _ _ hnode htranspose => readsTransposed_eq_not_iff hnode htranspose⟩

/-! ## Two transpositions over a matrix -/

/-- A matrix, its transpose at node 0, and the transpose of that at node 1. -/
def transposedTwice (leaf : Leaf) : ExprGraph :=
  ⟨#[⟨.canonical .transpose, .leaf leaf, none⟩, ⟨.canonical .transpose, .node 0, none⟩]⟩

theorem transposes_once (leaf : Leaf) : (transposedTwice leaf).Transposes leaf 1 (.node 0) :=
  .node rfl rfl .leaf

theorem transposes_twice (leaf : Leaf) : (transposedTwice leaf).Transposes leaf 2 (.node 1) :=
  .node rfl rfl (transposes_once leaf)

theorem exists_matrix (order : StorageOrder) :
    ∃ m : StoredMatrix .double, StoredMatrix.zeros "a" 2 2 order = .ok m ∧
      (Leaf.ofObject (.matrix m)).isRowMajor = (order == .rowMajor) := by
  obtain ⟨m, hm⟩ : ∃ m : StoredMatrix .double, StoredMatrix.zeros "a" 2 2 order = .ok m :=
    StoredMatrix.exists_zeros_iff.2 (by decide)
  obtain ⟨_, _, _, rfl, _⟩ := StoredMatrix.zeros_eq_ok hm
  exact ⟨m, hm, Leaf.isRowMajor_ofMatrix m⟩

/-- Over a matrix stored row after row, two transpositions are read as they should be. -/
theorem rowMajor_transposition_verdict :
    ∃ m : StoredMatrix .double, StoredMatrix.zeros "a" 2 2 .rowMajor = .ok m ∧
      let leaf := Leaf.ofObject (.matrix m)
      leaf.OddlyTransposed 2 ∧ (transposedTwice leaf).readsTransposed (.node 1) = true ∧
        (transposedTwice leaf).readsTransposed (.node 0) = false ∧
        (transposedTwice leaf).readsTransposed (.node 1) =
          !(transposedTwice leaf).readsTransposed (.node 0) := by
  obtain ⟨m, hm, hrowMajor⟩ := exists_matrix .rowMajor
  obtain ⟨hchain, hnode⟩ := transposition_verdict (transposedTwice (.ofObject (.matrix m)))
  have hodd : (Leaf.ofObject (.matrix m)).OddlyTransposed 2 := .inr ⟨even_two, hrowMajor⟩
  have honce : (transposedTwice (.ofObject (.matrix m))).readsTransposed (.node 0) = false := by
    rw [← Bool.not_eq_true, (hchain _ 1 _ (transposes_once _)).1]
    simp [hrowMajor]
  refine ⟨m, hm, hodd, (hchain _ 2 _ (transposes_twice _)).1.2 (by simp), honce, ?_⟩
  exact (hnode 1 _ rfl rfl).2 fun below hbelow => by cases hbelow; exact honce

/-- The transpose of the transpose of a matrix stored column after column is read transposed, as
the transpose itself is. -/
theorem transposedTwice_readsTransposed :
    ∃ m : StoredMatrix .double, StoredMatrix.zeros "a" 2 2 .columnMajor = .ok m ∧
      let leaf := Leaf.ofObject (.matrix m)
      (transposedTwice leaf).Transposes leaf 2 (.node 1) ∧ ¬leaf.OddlyTransposed 2 ∧
        (transposedTwice leaf).readsTransposed (.node 1) = true ∧
        (transposedTwice leaf).readsTransposed (.node 0) = true := by
  obtain ⟨m, hm, hcolumnMajor⟩ := exists_matrix .columnMajor
  have hodd : ¬(Leaf.ofObject (.matrix m)).OddlyTransposed 2 := by
    simp [Leaf.OddlyTransposed, hcolumnMajor]
  refine ⟨m, hm, transposes_twice _, hodd, rfl, ?_⟩
  rw [(transposes_once _).readsTransposed_iff, hcolumnMajor]
  simp

end ExprGraph

end FusedKernel
