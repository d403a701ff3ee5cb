import FusedKernel.Proofs.Graph.Replay

/-!
# The events of a tree

A walk that succeeds has the events of a tree, however it came by them.  The events of a node
stand around those of what is below it.

* `Unfolding.events` — the events of walking a tree.
* `Event.next?`, `Event.Nested` — nodes are closed in the opposite order of being opened, and
  visited while they are the innermost open node.

Principal results: `followTrace_eq_of_unfolds` — the trace of an operand is read off its tree;
`exists_tree_of_run` — so are the events of a walk that succeeds; `nested_events` — they are
nested.
-/

set_option autoImplicit false

namespace FusedKernel

/-- The visit of a leaf that is followed on one side of a node. -/
def Walk.leafVisit (side : Side) (id : NodeId) : Option Operand → List Event
  | some (.leaf _) => [.visited side id]
  | some (.node _) | none => []

/-- The events of walking a tree. -/
def Unfolding.events (mode : Walk.Mode) : Unfolding → List Event
  | empty => []
  | branch id node left right =>
    .opened id :: (Walk.leafVisit .left id (mode.left? node) ++ left.events mode ++
      .visited .self id :: (Walk.leafVisit .right id (mode.right? node) ++ right.events mode ++
        [.closed id]))

/-! ## The walk of a tree -/

theorem Trace.append_ok (before after : List Event) :
    (⟨before, .ok ()⟩ : Trace) ++ (⟨after, .ok ()⟩ : Trace) = ⟨before ++ after, .ok ()⟩ := rfl

namespace Walk

variable {σ : Type} {mode : Mode} {g : ExprGraph} {visitor : Visitor σ} {root : NodeId}

/-- **The trace of an operand is read off its tree,** if there are levels enough for it. -/
theorem followTrace_eq_of_unfolds {operand : Option Operand} {tree : Unfolding}
    (h : Unfolds mode g operand tree) {levels : Nat} (hheight : tree.height ≤ levels)
    (side : Side) (parent : NodeId) :
    followTrace (trace mode g levels) side parent operand =
      ⟨leafVisit side parent operand ++ tree.events mode, .ok ()⟩ := by
  induction h generalizing levels side parent with
  | none => rfl
  | leaf leaf => rfl
  | @node id node left right hnode _ _ ihleft ihright =>
    simp only [Unfolding.height] at hheight
    obtain ⟨below, rfl⟩ : ∃ below, levels = below + 1 := ⟨levels - 1, by omega⟩
    have hheights : left.height ≤ below ∧ right.height ≤ below := by omega
    have hleft := ihleft hheights.1 .left id
    have hright := ihright hheights.2 .right id
    show trace mode g (below + 1) id = ⟨(Unfolding.branch id node left right).events mode, .ok ()⟩
    rw [trace, hnode]
    simp only [Trace.single, hleft, hright, Trace.append_ok, Unfolding.events, List.cons_append,
      List.nil_append, List.append_assoc]

/-- With a tree below its root a walk succeeds, and has the events of the tree. -/
theorem events_eq_of_unfolds {tree : Unfolding} (h : Unfolds mode g (some (.node root)) tree) :
    events mode g root = tree.events mode ∧ verdict mode g root = .ok () := by
  have htrace : trace mode g (g.size + 1) root = ⟨tree.events mode, .ok ()⟩ :=
    followTrace_eq_of_unfolds h h.height_le .self root
  rw [events_eq, verdict_eq, htrace]
  exact ⟨rfl, rfl⟩

/-- **A walk that succeeds is that of a tree,** and its hooks are called for the events of it. -/
theorem exists_tree_of_run {s s' : σ} (hrun : run mode g visitor root s = .ok () s') :
    ∃ tree, Unfolds mode g (some (.node root)) tree ∧ events mode g root = tree.events mode ∧
      visitor.replay g (events mode g root) s = .ok () s' := by
  obtain ⟨tree, htree, _⟩ := exists_unfolds_of_descend hrun
  obtain ⟨hevents, hverdict⟩ := events_eq_of_unfolds htree
  refine ⟨tree, htree, hevents, ?_⟩
  rw [run_eq_replay, hverdict] at hrun
  cases hreplay : visitor.replay g (events mode g root) s with
  | error e mid => rw [hreplay] at hrun; cases hrun
  | ok _ mid => rw [hreplay] at hrun; exact hrun

end Walk

/-! ## Nesting -/

namespace Event

/-- The nodes that are open after an event, the innermost one first, if it may happen while those
given are open. -/
def next? (stack : List NodeId) : Event → Option (List NodeId)
  | opened id => some (id :: stack)
  | visited _ id => if stack.head? = some id then some stack else none
  | closed id => if stack.head? = some id then some stack.tail else none

/-- Each node that is opened is closed, after all that have been opened within it, and whatever
is visited is the innermost open node then. -/
def Nested (events : List Event) : Prop := events.foldlM next? [] = some []

instance (events : List Event) : Decidable (Nested events) := inferInstanceAs (Decidable (_ = _))

theorem foldlM_leafVisit (side : Side) (id : NodeId) (operand : Option Operand)
    (stack : List NodeId) :
    (Walk.leafVisit side id operand).foldlM next? (id :: stack) = some (id :: stack) := by
  rcases operand with _ | _ | _ <;> simp [Walk.leafVisit, next?]

end Event

/-- Whatever is open before the events of a tree is open after them. -/
theorem Unfolding.foldlM_events (mode : Walk.Mode) (tree : Unfolding) (stack : List NodeId) :
    (tree.events mode).foldlM Event.next? stack = some stack := by
  induction tree generalizing stack with
  | empty => rfl
  | branch id node left right ihleft ihright =>
    have hself : Event.next? (id :: stack) (.visited .self id) = some (id :: stack) := by
      simp [Event.next?]
    have hclose : Event.next? (id :: stack) (.closed id) = some stack := by
      simp [Event.next?]
    show (_ : List Event).foldlM Event.next? (id :: stack) = some stack
    simp only [List.foldlM_append, Event.foldlM_leafVisit, ihleft, ihright, List.foldlM_cons,
      hself, hclose, List.foldlM_nil, Option.bind_eq_bind, Option.bind_some, Option.pure_def]

/-- **The events of a tree are nested.** -/
theorem Unfolding.nested_events (mode : Walk.Mode) (tree : Unfolding) :
    Event.Nested (tree.events mode) :=
  tree.foldlM_events mode []

end FusedKernel
