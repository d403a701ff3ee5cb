import FusedKernel.Graph.Event
import FusedKernel.Proofs.Graph.Faults

/-!
# The verdict of a walk

A visitor that never fails leaves the verdict to the graph.  The walk then succeeds exactly when
everything it meets is in range and off all cycles.  The number of levels plays no part in this:
without a cycle the walk never runs out of them, however deep the graph is and however much of
it is shared, and on a cycle it always does.

* `Visitor.NeverFails` — none of the hooks stops a walk.

Principal results: `OrderlyBelow.exists_unfolds` — order below a node means that it unfolds into
a tree; `exists_alike_of_runsInto` — no fault on the way is missed; `run_verdict` — which graphs
pass a walk, and what its errors say.
-/

set_option autoImplicit false

namespace FusedKernel

open Relation

/-- None of the hooks ever stops a walk. -/
structure Visitor.NeverFails {σ : Type} (visitor : Visitor σ) : Prop where
  enter : ∀ id node s, ∃ s', visitor.enter id node s = .ok () s'
  visit : ∀ side id node s, ∃ s', visitor.visit side id node s = .ok () s'
  leave : ∀ id node s, ∃ s', visitor.leave id node s = .ok () s'

theorem Event.recorder_neverFails : recorder.NeverFails where
  enter _ _ _ := ⟨_, rfl⟩
  visit _ _ _ _ := ⟨_, rfl⟩
  leave _ _ _ := ⟨_, rfl⟩

variable {σ : Type} {visitor : Visitor σ} {mode : Walk.Mode} {g : ExprGraph} {root : NodeId}

theorem Visitor.NeverFails.not_refuses {id : NodeId} {node : Node} {e : GenerationError}
    (h : visitor.NeverFails) : ¬visitor.Refuses mode id node e := by
  have hclash : ∀ {result : EStateM.Result GenerationError σ Unit} {s' : σ},
      (∃ s'', result = .ok () s'') → result ≠ .error e s' := by
    rintro _ _ ⟨_, rfl⟩ herror
    cases herror
  intro hrefuses
  cases hrefuses with
  | enter herror => exact hclash (h.enter _ _ _) herror
  | left _ herror => exact hclash (h.visit _ _ _ _) herror
  | self herror => exact hclash (h.visit _ _ _ _) herror
  | right _ herror => exact hclash (h.visit _ _ _ _) herror
  | leave herror => exact hclash (h.leave _ _ _) herror

namespace Walk

/-- A visitor that never fails is stopped by faults only. -/
theorem runsInto_of_run (h : visitor.NeverFails) {s s' : σ} {e : GenerationError}
    (herror : run mode g visitor root s = .error e s') : g.RunsInto mode root e := by
  rcases runsInto_or_refuses_of_run herror with hfault | ⟨_, _, _, _, hrefuses⟩
  · exact hfault
  · exact absurd hrefuses h.not_refuses

end Walk

/-! ## Trees and order -/

/-- A node with nothing but order below it unfolds into a tree: a walk finds one. -/
theorem ExprGraph.OrderlyBelow.exists_unfolds (h : g.OrderlyBelow mode root) :
    ∃ tree, Unfolds mode g (some (.node root)) tree := by
  cases hrun : Walk.run mode g Event.recorder root #[] with
  | ok _ events =>
    obtain ⟨tree, htree, _⟩ := Walk.exists_unfolds_of_descend hrun
    exact ⟨tree, htree⟩
  | error e events =>
    exact absurd h (Walk.runsInto_of_run Event.recorder_neverFails hrun).not_orderlyBelow

/-- A walk has levels enough for any tree. -/
theorem Unfolds.height_le {tree : Unfolding} (h : Unfolds mode g (some (.node root)) tree) :
    tree.height ≤ g.size + 1 := by
  cases hrun : Walk.run mode g Event.recorder root #[] with
  | ok _ events =>
    obtain ⟨tree', htree', hheight⟩ := Walk.exists_unfolds_of_descend hrun
    rw [h.unique htree']
    exact hheight
  | error e events =>
    exact absurd h.orderlyBelow
      (Walk.runsInto_of_run Event.recorder_neverFails hrun).not_orderlyBelow

/-! ## How a walk ends -/

namespace Walk

theorem run_eq_ok_iff (h : visitor.NeverFails) (s : σ) :
    (∃ s', run mode g visitor root s = .ok () s') ↔ g.OrderlyBelow mode root := by
  constructor
  · rintro ⟨s', hrun⟩
    obtain ⟨tree, htree, _⟩ := exists_unfolds_of_descend hrun
    exact htree.orderlyBelow
  · intro horder
    cases hrun : run mode g visitor root s with
    | ok _ s' => exact ⟨s', rfl⟩
    | error e s' => exact absurd horder (runsInto_of_run h hrun).not_orderlyBelow

/-- Where there is a fault on the way, the walk ends with it. -/
theorem exists_alike_of_runsInto (h : visitor.NeverFails) (s : σ) {e : GenerationError}
    (hfault : g.RunsInto mode root e) :
    ∃ e' s', run mode g visitor root s = .error e' s' ∧ e.Alike e' := by
  cases hrun : run mode g visitor root s with
  | ok _ s' => exact absurd ((run_eq_ok_iff h s).1 ⟨s', hrun⟩) hfault.not_orderlyBelow
  | error e' s' => exact ⟨e', s', rfl, hfault.alike (runsInto_of_run h hrun)⟩

/-- **The verdict of a walk.**  It succeeds exactly when all it meets is in range and off all
cycles, however deep or shared; otherwise it reports a missing node, or a cycle, on its way. -/
theorem run_verdict (h : visitor.NeverFails) (mode : Mode) (g : ExprGraph) (root : NodeId)
    (s : σ) :
    ((∃ s', run mode g visitor root s = .ok () s') ↔ g.OrderlyBelow mode root) ∧
      ∀ e s', run mode g visitor root s = .error e s' → g.RunsInto mode root e := by
  refine ⟨run_eq_ok_iff h s, ?_⟩
  intro e s' herror
  exact runsInto_of_run h herror

/-- Sums of sums, each used twice, over the norm of a sum without end. -/
def sharedSums : ExprGraph :=
  ⟨#[⟨.canonical .add, anyLeaf, some anyLeaf⟩, ⟨.canonical .add, .node 0, some (.node 0)⟩,
    ⟨.canonical .add, .node 1, some (.node 1)⟩, ⟨.canonical .add, anyLeaf, some (.node 3)⟩,
    ⟨.canonical .norm1, .node 3, none⟩, ⟨.canonical .div, .node 2, some (.node 4)⟩]⟩

/-- Only a full walk comes to the sum that is part of itself. -/
theorem sharedSums_verdict : Event.recorder.NeverFails ∧ sharedSums.OrderlyBelow .fused 5 ∧
    ¬sharedSums.OrderlyBelow .full 5 := by
  refine ⟨Event.recorder_neverFails, ?_, ?_⟩
  · exact (run_verdict Event.recorder_neverFails .fused sharedSums 5 #[]).1.1 ⟨_, rfl⟩
  · intro horder
    obtain ⟨events, hrun⟩ :=
      (run_verdict Event.recorder_neverFails .full sharedSums 5 #[]).1.2 horder
    cases hrun

end Walk

end FusedKernel
