import FusedKernel.Error
import FusedKernel.Leaf.Object

/-!
# Functions on leaves

A `LeafFunction` is defined kind by kind.  `LeafFunction.run` applies it to any leaf,
`LeafFunction.runAs` to a leaf that must be of a given kind.  Both first check the tags
of the leaf against what is behind it, in a fixed order: whether they name a kind at all,
whether it is the expected one, whether the element type is one of the two precisions, and
whether the object agrees.

Principal results: `Leaf.check_eq_ok_iff` (a check passes exactly when the tags describe the
object and name the expected kind), `LeafFunction.run_ofObject` (derived tags always reach
the object) and `LeafFunction.run_eq_error_of_not_describes` (wrong tags never do).
-/

set_option autoImplicit false

namespace FusedKernel

/-- A function on leaves, given by its value on each kind. -/
structure LeafFunction (α : Type) where
  hostScalar : (p : Precision) → Element p → α
  scalar : (p : Precision) → StoredScalar p → α
  vector : (p : Precision) → StoredVector p → α
  constantVector : (p : Precision) → ConstantVector p → α
  matrix : (p : Precision) → StoredMatrix p → α
  constantMatrix : (p : Precision) → ConstantMatrix p → α

/-- Checks that a leaf is tagged as a `kind`, and rightly so. -/
def Leaf.check (leaf : Leaf) (kind : ObjectKind) : Except GenerationError Unit :=
  match ObjectKind.classify leaf.shape leaf.representation with
  | .error e => .error e
  | .ok tagged =>
    if tagged ≠ kind then
      .error (.unsupportedLeaf (.use kind) tagged leaf.elementType)
    else
      match Precision.ofElementType? leaf.elementType with
      | none => .error (.noPrecision leaf.elementType)
      | some p =>
        if leaf.object.kind = kind ∧ leaf.precision = p then .ok ()
        else
          .error (.unsupportedLeaf (.use kind) leaf.object.kind leaf.precision.elementType)

theorem Leaf.check_eq_ok_iff {leaf : Leaf} {kind : ObjectKind} :
    leaf.check kind = .ok () ↔ leaf.object.kind = kind ∧ leaf.Describes := by
  constructor
  · intro h
    unfold check at h
    split at h
    · cases h
    rename_i tagged htags
    split at h
    · cases h
    rename_i hne
    split at h
    · cases h
    rename_i p hp
    split at h
    · rename_i hobj
      refine ⟨hobj.1, ?_, ?_⟩
      · rw [ObjectKind.classify_eq_ok_iff.1 htags, hobj.1, Classical.not_not.1 hne]
      · rw [Precision.ofElementType?_eq_some_iff.1 hp, hobj.2]
    · cases h
  · rintro ⟨rfl, htags, htype⟩
    unfold check
    rw [ObjectKind.classify_eq_ok_iff.2 htags]
    simp [htype]

namespace LeafFunction

variable {α : Type}

/-- The value of a function on an object. -/
def apply (f : LeafFunction α) {p : Precision} : LeafObject p → α
  | .hostScalar value => f.hostScalar p value
  | .scalar s => f.scalar p s
  | .vector v => f.vector p v
  | .constantVector v => f.constantVector p v
  | .matrix m => f.matrix p m
  | .constantMatrix m => f.constantMatrix p m

/-- The value of a function on a leaf that must be of the given kind. -/
def runAs (f : LeafFunction α) (kind : ObjectKind) (leaf : Leaf) : Except GenerationError α :=
  match leaf.check kind with
  | .error e => .error e
  | .ok () => .ok (f.apply leaf.object)

/-- The value of a function on a leaf. -/
def run (f : LeafFunction α) (leaf : Leaf) : Except GenerationError α :=
  match ObjectKind.classify leaf.shape leaf.representation with
  | .error e => .error e
  | .ok kind => f.runAs kind leaf

theorem run_eq_of_describes (f : LeafFunction α) {leaf : Leaf} (h : leaf.Describes) :
    f.run leaf = .ok (f.apply leaf.object) := by
  unfold run
  rw [ObjectKind.classify_eq_ok_iff.2 h.tags]
  simp only [runAs, Leaf.check_eq_ok_iff.2 ⟨rfl, h⟩]

/-- No function has a value on a leaf that is tagged as something else, and all say so alike. -/
theorem run_eq_error_of_not_describes {leaf : Leaf} (h : ¬leaf.Describes) :
    ∃ e, ∀ (α : Type) (f : LeafFunction α), f.run leaf = .error e := by
  cases htags : ObjectKind.classify leaf.shape leaf.representation with
  | error e => exact ⟨e, fun α f => by simp only [run, htags]⟩
  | ok kind =>
    cases hcheck : leaf.check kind with
    | error e => exact ⟨e, fun α f => by simp only [run, htags, runAs, hcheck]⟩
    | ok _ => exact absurd (Leaf.check_eq_ok_iff.1 hcheck).2 h

@[simp] theorem run_ofObject (f : LeafFunction α) {p : Precision} (object : LeafObject p) :
    f.run (Leaf.ofObject object) = .ok (f.apply object) :=
  f.run_eq_of_describes (Leaf.describes_ofObject object)

end LeafFunction

end FusedKernel
