import FusedKernel.Leaf.Function

/-!
# Which method a leaf is given to

A leaf is only known by its tags, so it may carry something else than they say.  A function is
applied to it if they describe its object, by the one method for objects of that kind and precision.
Otherwise the leaf is rejected, and by an error that does not depend on the function: none of the
methods has been asked.

* `Leaf.Tagged` — the tags of a leaf are those of a kind.
* `Leaf.Rejected` — the first check that the tags of a leaf fail.
* `LeafFunction.Answers` — the leaves that each method is given, and what comes of it.

Principal results: `LeafFunction.run_eq_ok_iff_answers`, `LeafFunction.run_eq_error_iff` and
`LeafFunction.runAs_eq_ok_iff`; `Leaf.dispatch_verdict`, which joins them.
-/

set_option autoImplicit false

namespace FusedKernel

theorem Precision.ofElementType?_eq_none_iff {t : ElementType} :
    Precision.ofElementType? t = none ↔ ∀ p : Precision, t ≠ p.elementType := by
  simp only [Option.eq_none_iff_forall_ne_some, ne_eq, Precision.ofElementType?_eq_some_iff]

namespace Leaf

variable {leaf : Leaf} {kind : ObjectKind} {e : GenerationError}

/-- The tags of a leaf are those of a kind. -/
def Tagged (leaf : Leaf) (kind : ObjectKind) : Prop :=
  (leaf.shape, leaf.representation) = kind.tags

/-- Why a leaf is rejected: the first thing that is wrong with its tags. -/
inductive Rejected (leaf : Leaf) : GenerationError → Prop
  /-- They are the tags of no kind. -/
  | unknownKind (htags : ∀ kind, ¬leaf.Tagged kind) :
      Rejected leaf (.unknownKind leaf.shape leaf.representation)
  /-- They name none of the two precisions. -/
  | noPrecision {kind : ObjectKind} (htags : leaf.Tagged kind)
      (htype : ∀ p : Precision, leaf.elementType ≠ p.elementType) :
      Rejected leaf (.noPrecision leaf.elementType)
  /-- They describe an object, but not the one the leaf carries.  The error names what the leaf was
  to be used as, and what it is. -/
  | otherObject {kind : ObjectKind} {p : Precision} (htags : leaf.Tagged kind)
      (htype : leaf.elementType = p.elementType) (hobject : ¬leaf.Describes) :
      Rejected leaf (.unsupportedLeaf (.use kind) leaf.object.kind leaf.precision.elementType)

/-! ## Tags -/

theorem Tagged.classify_eq (h : leaf.Tagged kind) :
    ObjectKind.classify leaf.shape leaf.representation = .ok kind :=
  ObjectKind.classify_eq_ok_iff.2 h

theorem Tagged.unique {kind' : ObjectKind} (h : leaf.Tagged kind) (h' : leaf.Tagged kind') :
    kind = kind' := by
  have heq := h.classify_eq.symm.trans h'.classify_eq
  cases heq
  rfl

theorem classify_of_not_tagged (h : ∀ kind, ¬leaf.Tagged kind) :
    ObjectKind.classify leaf.shape leaf.representation =
      .error (.unknownKind leaf.shape leaf.representation) := by
  unfold ObjectKind.classify
  split
  · rename_i kind htags
    exact absurd (ObjectKind.classify?_eq_some_iff.1 htags) (h kind)
  · rfl

theorem Describes.tagged (h : leaf.Describes) : leaf.Tagged leaf.object.kind := h.tags

/-- Tags that name a precision describe the object if kind and precision are right. -/
theorem describes_iff {p : Precision} (htags : leaf.Tagged kind)
    (htype : leaf.elementType = p.elementType) :
    leaf.Describes ↔ leaf.object.kind = kind ∧ leaf.precision = p := by
  constructor
  · intro h
    refine ⟨h.tagged.unique htags, ?_⟩
    have heq := htype.symm.trans h.elementType
    have hsome := Precision.ofElementType?_elementType leaf.precision
    rw [← heq, Precision.ofElementType?_elementType] at hsome
    cases hsome
    rfl
  · rintro ⟨rfl, rfl⟩
    exact ⟨htags, htype⟩

/-! ## The checks -/

/-- Under its own tag, a leaf fails the checks exactly if it is rejected. -/
theorem check_eq_error_iff (htags : leaf.Tagged kind) :
    leaf.check kind = .error e ↔ leaf.Rejected e := by
  constructor
  · intro h
    unfold check at h
    rw [htags.classify_eq] at h
    simp only [ne_eq, not_true_eq_false, if_false] at h
    split at h
    · rename_i htype
      cases h
      exact .noPrecision htags (Precision.ofElementType?_eq_none_iff.1 htype)
    · rename_i p htype
      have htype := Precision.ofElementType?_eq_some_iff.1 htype
      split at h
      · cases h
      · rename_i hobject
        cases h
        exact .otherObject htags htype (mt (describes_iff htags htype).1 hobject)
  · intro h
    unfold check
    rw [htags.classify_eq]
    cases h with
    | unknownKind hnone => exact absurd htags (hnone kind)
    | noPrecision _ htype => simp [Precision.ofElementType?_eq_none_iff.2 htype]
    | otherObject htags' htype hobject =>
      cases htags.unique htags'
      rw [describes_iff htags htype] at hobject
      simp [Precision.ofElementType?_eq_some_iff.2 htype, hobject]

/-- A leaf with the tags of another kind, or of none, passes for no object of this kind. -/
theorem check_of_not_tagged (htags : ¬leaf.Tagged kind) :
    leaf.check kind = .error (.unknownKind leaf.shape leaf.representation) ∧
        (∀ tagged, ¬leaf.Tagged tagged) ∨
      ∃ tagged, leaf.Tagged tagged ∧
        leaf.check kind = .error (.unsupportedLeaf (.use kind) tagged leaf.elementType) := by
  by_cases h : ∃ tagged, leaf.Tagged tagged
  · obtain ⟨tagged, htagged⟩ := h
    have hne : tagged ≠ kind := by
      rintro rfl
      exact htags htagged
    refine Or.inr ⟨tagged, htagged, ?_⟩
    unfold check
    rw [htagged.classify_eq]
    simp [hne]
  · rw [not_exists] at h
    refine Or.inl ⟨?_, h⟩
    unfold check
    rw [classify_of_not_tagged h]

end Leaf

/-! ## Functions -/

namespace LeafFunction

/-- What a function answers: one row for each method, with the tags that lead to it, the object
that a leaf with these tags has to carry, and the method applied to it. -/
inductive Answers {α : Type} (f : LeafFunction α) : Leaf → α → Prop
  | hostScalar (p : Precision) (value : Element p) :
      Answers f ⟨.scalar, .hostScalar, p.elementType, p, .hostScalar value⟩ (f.hostScalar p value)
  | scalar (p : Precision) (s : StoredScalar p) :
      Answers f ⟨.scalar, .stored, p.elementType, p, .scalar s⟩ (f.scalar p s)
  | vector (p : Precision) (v : StoredVector p) :
      Answers f ⟨.vector, .stored, p.elementType, p, .vector v⟩ (f.vector p v)
  | constantVector (p : Precision) (v : ConstantVector p) :
      Answers f ⟨.vector, .constantVector, p.elementType, p, .constantVector v⟩
        (f.constantVector p v)
  | matrix (p : Precision) (m : StoredMatrix p) :
      Answers f ⟨.matrix, .stored, p.elementType, p, .matrix m⟩ (f.matrix p m)
  | constantMatrix (p : Precision) (m : ConstantMatrix p) :
      Answers f ⟨.matrix, .constantMatrix, p.elementType, p, .constantMatrix m⟩
        (f.constantMatrix p m)

variable {α : Type} {f : LeafFunction α} {leaf : Leaf} {kind : ObjectKind} {a : α}
  {e : GenerationError}

theorem Answers.describes (h : f.Answers leaf a) : leaf.Describes := by
  cases h with
  | hostScalar | scalar | vector | constantVector | matrix | constantMatrix => exact ⟨rfl, rfl⟩

theorem Answers.eq_apply (h : f.Answers leaf a) : a = f.apply leaf.object := by
  cases h with
  | hostScalar | scalar | vector | constantVector | matrix | constantMatrix => rfl

theorem answers_of_describes (h : leaf.Describes) : f.Answers leaf (f.apply leaf.object) := by
  obtain ⟨shape, representation, elementType, p, object⟩ := leaf
  have htype : elementType = p.elementType := h.elementType
  subst htype
  have htags := h.tags
  cases object with
  | hostScalar value =>
    cases htags
    exact .hostScalar p value
  | scalar s =>
    cases htags
    exact .scalar p s
  | vector v =>
    cases htags
    exact .vector p v
  | constantVector v =>
    cases htags
    exact .constantVector p v
  | matrix m =>
    cases htags
    exact .matrix p m
  | constantMatrix m =>
    cases htags
    exact .constantMatrix p m

theorem runAs_eq_ok_iff :
    f.runAs kind leaf = .ok a ↔
      leaf.object.kind = kind ∧ leaf.Describes ∧ a = f.apply leaf.object := by
  rw [← and_assoc, ← Leaf.check_eq_ok_iff]
  unfold runAs
  split
  · rename_i hcheck
    simp [hcheck]
  · rename_i hcheck
    simp [hcheck, eq_comm]

theorem runAs_eq_error_iff : f.runAs kind leaf = .error e ↔ leaf.check kind = .error e := by
  unfold runAs
  split
  · rename_i hcheck
    simp [hcheck]
  · rename_i hcheck
    simp [hcheck]

/-- A leaf is used as what it is tagged to be. -/
theorem run_eq_runAs (htags : leaf.Tagged kind) : f.run leaf = f.runAs kind leaf := by
  unfold run
  rw [htags.classify_eq]

theorem run_eq_ok_iff : f.run leaf = .ok a ↔ leaf.Describes ∧ a = f.apply leaf.object := by
  constructor
  · intro h
    by_cases hdescribes : leaf.Describes
    · rw [run_eq_of_describes f hdescribes] at h
      cases h
      exact ⟨hdescribes, rfl⟩
    · obtain ⟨e, herror⟩ := run_eq_error_of_not_describes hdescribes
      rw [herror α f] at h
      cases h
  · rintro ⟨hdescribes, rfl⟩
    exact run_eq_of_describes f hdescribes

theorem run_eq_ok_iff_answers : f.run leaf = .ok a ↔ f.Answers leaf a := by
  rw [run_eq_ok_iff]
  constructor
  · rintro ⟨hdescribes, rfl⟩
    exact answers_of_describes hdescribes
  · intro h
    exact ⟨h.describes, h.eq_apply⟩

theorem exists_run_eq_ok_iff : (∃ a, f.run leaf = .ok a) ↔ leaf.Describes := by
  constructor
  · rintro ⟨a, hrun⟩
    exact (run_eq_ok_iff.1 hrun).1
  · intro h
    exact ⟨_, f.run_eq_of_describes h⟩

theorem run_eq_error_iff : f.run leaf = .error e ↔ leaf.Rejected e := by
  by_cases h : ∃ kind, leaf.Tagged kind
  · obtain ⟨kind, htags⟩ := h
    rw [run_eq_runAs htags, runAs_eq_error_iff, Leaf.check_eq_error_iff htags]
  · rw [not_exists] at h
    unfold run
    rw [Leaf.classify_of_not_tagged h]
    constructor
    · intro heq
      cases heq
      exact .unknownKind h
    · intro hrejected
      cases hrejected with
      | unknownKind => rfl
      | noPrecision htags => exact absurd htags (h _)
      | otherObject htags => exact absurd htags (h _)

/-- A leaf with the tags of another kind, or of none, fails all functions alike. -/
theorem runAs_of_not_tagged (htags : ¬leaf.Tagged kind) :
    ∃ e, (∀ (α : Type) (f : LeafFunction α), f.runAs kind leaf = .error e) ∧
      (e = .unknownKind leaf.shape leaf.representation ∧ (∀ tagged, ¬leaf.Tagged tagged) ∨
        ∃ tagged, leaf.Tagged tagged ∧
          e = .unsupportedLeaf (.use kind) tagged leaf.elementType) := by
  rcases Leaf.check_of_not_tagged htags with ⟨hcheck, hnone⟩ | ⟨tagged, htagged, hcheck⟩
  · exact ⟨_, fun α f => runAs_eq_error_iff.2 hcheck, .inl ⟨rfl, hnone⟩⟩
  · exact ⟨_, fun α f => runAs_eq_error_iff.2 hcheck, .inr ⟨tagged, htagged, rfl⟩⟩

end LeafFunction

namespace Leaf

/-- A leaf counts as a matrix stored row after row if it can be used as a stored matrix and that
matrix is stored so. -/
theorem isRowMajor_iff {leaf : Leaf} :
    leaf.isRowMajor = true ↔ ∃ m : StoredMatrix leaf.precision, leaf.object = .matrix m ∧
      m.isRowMajor = true ∧ ∀ (α : Type) (f : LeafFunction α),
        f.runAs .matrix leaf = .ok (f.matrix leaf.precision m) := by
  obtain ⟨shape, representation, elementType, precision, object⟩ := leaf
  cases object with
  | matrix m =>
    constructor
    · intro h
      simp only [isRowMajor, Bool.and_eq_true, beq_iff_eq] at h
      obtain ⟨⟨⟨rfl, rfl⟩, rfl⟩, hrowMajor⟩ := h
      refine ⟨m, rfl, hrowMajor, ?_⟩
      intro α f
      exact LeafFunction.runAs_eq_ok_iff.2 ⟨rfl, ⟨rfl, rfl⟩, rfl⟩
    · rintro ⟨_, hobject, hrowMajor, hrun⟩
      cases hobject
      -- Any function tells that the checks have passed.
      obtain ⟨_, hdescribes, _⟩ := LeafFunction.runAs_eq_ok_iff.1 (hrun Unit ⟨fun _ _ => (),
        fun _ _ => (), fun _ _ => (), fun _ _ => (), fun _ _ => (), fun _ _ => ()⟩)
      cases hdescribes.tags
      have htype : elementType = precision.elementType := hdescribes.elementType
      subst htype
      simpa [isRowMajor] using hrowMajor
  | hostScalar | scalar | vector | constantVector | constantMatrix => simp [isRowMajor]

/-- **Which method a leaf is given to.**  A function has a value on a leaf exactly when there is a
row for the leaf in the table of its answers, which is when the tags describe the object.  Then the
value is that of the one method for objects of this kind and precision, applied to the object.  Any
other leaf is rejected with an error that is the same for all functions, functions whose values
are actions included, so no method has a part in it.  Using a leaf as an object of the kind it is
tagged as comes to the same; as an object of another kind it fails all functions alike.  The test
for storage row after row passes exactly the leaves that can be used as a matrix stored so. -/
theorem dispatch_verdict (leaf : Leaf) :
    (∀ (α : Type) (f : LeafFunction α) (a : α), f.run leaf = .ok a ↔ f.Answers leaf a) ∧
    (∀ (α : Type) (f : LeafFunction α), (∃ a, f.run leaf = .ok a) ↔ leaf.Describes) ∧
    (leaf.Describes → ∀ (α : Type) (f : LeafFunction α),
      (∀ value, leaf.object = .hostScalar value →
        f.run leaf = .ok (f.hostScalar leaf.precision value)) ∧
      (∀ s, leaf.object = .scalar s → f.run leaf = .ok (f.scalar leaf.precision s)) ∧
      (∀ v, leaf.object = .vector v → f.run leaf = .ok (f.vector leaf.precision v)) ∧
      (∀ v, leaf.object = .constantVector v →
        f.run leaf = .ok (f.constantVector leaf.precision v)) ∧
      (∀ m, leaf.object = .matrix m → f.run leaf = .ok (f.matrix leaf.precision m)) ∧
      (∀ m, leaf.object = .constantMatrix m →
        f.run leaf = .ok (f.constantMatrix leaf.precision m))) ∧
    (∀ (α : Type) (f : LeafFunction α) (e : GenerationError),
      f.run leaf = .error e ↔ leaf.Rejected e) ∧
    (∀ kind, leaf.Tagged kind → ∀ (α : Type) (f : LeafFunction α),
      f.runAs kind leaf = f.run leaf) ∧
    (∀ kind, ¬leaf.Tagged kind →
      ∃ e, (∀ (α : Type) (f : LeafFunction α), f.runAs kind leaf = .error e) ∧
        (e = .unknownKind leaf.shape leaf.representation ∧ (∀ tagged, ¬leaf.Tagged tagged) ∨
          ∃ tagged, leaf.Tagged tagged ∧
            e = .unsupportedLeaf (.use kind) tagged leaf.elementType)) ∧
    (leaf.isRowMajor = true ↔ ∃ m : StoredMatrix leaf.precision, leaf.object = .matrix m ∧
      m.isRowMajor = true ∧ ∀ (α : Type) (f : LeafFunction α),
        f.runAs .matrix leaf = .ok (f.matrix leaf.precision m)) := by
  refine ⟨?_, ?_, ?_, ?_, ?_, ?_, isRowMajor_iff⟩
  · intro α f a
    exact LeafFunction.run_eq_ok_iff_answers
  · intro α f
    exact LeafFunction.exists_run_eq_ok_iff
  · intro hdescribes α f
    rw [f.run_eq_of_describes hdescribes]
    -- The same step for each kind of object.
    refine ⟨?_, ?_, ?_, ?_, ?_, ?_⟩
    all_goals
      intro object hobject
      rw [hobject]
      rfl
  · intro α f e
    exact LeafFunction.run_eq_error_iff
  · intro kind htags α f
    exact (LeafFunction.run_eq_runAs htags).symm
  · intro kind htags
    exact LeafFunction.runAs_of_not_tagged htags

/-- Four equal numbers in single precision, tagged as numbers in double precision. -/
def mistypedVector : Leaf where
  shape := .vector
  representation := .constantVector
  elementType := .double
  precision := .single
  object := .constantVector ⟨"v", 4, 0⟩

/-- The error tells that the vector is one in single precision.  It is no matrix either.  With the
right element type, the vector is given to the method for vectors with equal entries. -/
theorem mistypedVector_dispatch :
    mistypedVector.Tagged .constantVector ∧ ¬mistypedVector.Tagged .matrix ∧
      (∀ (α : Type) (f : LeafFunction α),
        f.run mistypedVector =
            .error (.unsupportedLeaf (.use .constantVector) .constantVector .float) ∧
          f.runAs .constantVector mistypedVector = f.run mistypedVector ∧
          f.runAs .matrix mistypedVector =
            .error (.unsupportedLeaf (.use .matrix) .constantVector .double)) ∧
      mistypedVector.isRowMajor = false ∧
      ∀ (α : Type) (f : LeafFunction α),
        f.run { mistypedVector with elementType := .float } =
            .ok (f.constantVector .single ⟨"v", 4, 0⟩) ∧
          f.runAs .constantVector { mistypedVector with elementType := .float } =
            .ok (f.constantVector .single ⟨"v", 4, 0⟩) := by
  obtain ⟨_, _, _, hrejected, hagrees, hother, hrowMajor⟩ := dispatch_verdict mistypedVector
  have htags : mistypedVector.Tagged .constantVector := rfl
  have hmatrix : ¬mistypedVector.Tagged .matrix := by
    intro h
    cases h.unique htags
  have hdescribes : ¬mistypedVector.Describes := fun h => nomatch h.elementType
  refine ⟨htags, hmatrix, ?_, ?_, ?_⟩
  · intro α f
    refine ⟨(hrejected α f _).2 (.otherObject (p := .double) htags rfl hdescribes),
      hagrees _ htags α f, ?_⟩
    obtain ⟨e, herror, ⟨_, hnone⟩ | ⟨tagged, htagged, rfl⟩⟩ := hother _ hmatrix
    · exact absurd htags (hnone _)
    · cases htagged.unique htags
      exact herror α f
  · rw [← Bool.not_eq_true, hrowMajor]
    rintro ⟨m, hobject, _⟩
    cases hobject
  · intro α f
    obtain ⟨hanswers, _, _, _, hagrees, _⟩ :=
      dispatch_verdict { mistypedVector with elementType := .float }
    have hrun := (hanswers α f _).2 (.constantVector .single ⟨"v", 4, 0⟩)
    exact ⟨hrun, (hagrees .constantVector rfl α f).trans hrun⟩

end Leaf

end FusedKernel
