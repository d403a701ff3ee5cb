import FusedKernel.Proofs.Graph.WalkVerdict

/-!
# Where a cycle is reported

A walk does not notice a cycle where it closes.  It goes around until it is too deep, and names the
node it stands on by then.  Mostly that is a node of the cycle.  But each time around, the walk also
goes through the left operands that hang off the cycle.  It got through them on higher levels, and
further down one of them may reach too deep.  Then the node that is named stands in that operand.

* `ExprGraph.Strays` — a walk goes on to an operand that it never gets through.
* `ExprGraph.Overhangs` — beside the way that never ends, an operand reaches below the last level.

Principal results: `cycle_or_unfolds` — what a walk comes to from a cycle is on a cycle, or has a
tree; `unfolds_iff_overhangs` — which of both it is for the node that is named; `reported_verdict`
— what is known of that node, and when it is reachable from itself.
-/

set_option autoImplicit false

namespace FusedKernel

open Relation

variable {mode : Walk.Mode} {g : ExprGraph}

namespace ExprGraph

variable {parent child child' root id : NodeId} {node : Node} {levels : Nat}

/-! ## The way that never ends -/

/-- A walk goes on to an operand without a tree. -/
def Strays (g : ExprGraph) (mode : Walk.Mode) (parent child : NodeId) : Prop :=
  g.Proceeds mode parent child ∧ ¬∃ tree, Unfolds mode g (some (.node child)) tree

/-- A walk strays to a node, in so many steps. -/
inductive StraysTo (g : ExprGraph) (mode : Walk.Mode) : Nat → NodeId → NodeId → Prop
  | here (id : NodeId) : StraysTo g mode 0 id id
  | step {depth : Nat} {root child id : NodeId} (hstep : g.Strays mode root child)
      (hrest : StraysTo g mode depth child id) : StraysTo g mode (depth + 1) root id

/-- At a node to which a walk strays, the left operand has a tree, but the levels left for it are
fewer than the tree has. -/
def Overhangs (g : ExprGraph) (mode : Walk.Mode) (levels : Nat) (root : NodeId) : Prop :=
  ∃ depth id node tree, g.StraysTo mode depth root id ∧ g.node? id = some node ∧
    Unfolds mode g (mode.left? node) tree ∧ depth < levels ∧ levels ≤ depth + tree.height

/-- There is only one way to stray. -/
theorem Strays.unique (h : g.Strays mode parent child) (h' : g.Strays mode parent child') :
    child = child' := by
  rcases h.1.eq_or_unfolds h'.1 with heq | htree | htree
  · exact heq
  · exact absurd htree h.2
  · exact absurd htree h'.2

theorem overhangs_of_height {tree : Unfolding} (hnode : g.node? root = some node)
    (htree : Unfolds mode g (mode.left? node) tree) (hheight : levels < tree.height) :
    g.Overhangs mode (levels + 1) root :=
  ⟨0, root, node, tree, .here root, hnode, htree, by omega, by omega⟩

/-- Where the left operand does not overhang itself, it is the same on the next level. -/
theorem overhangs_succ_iff (hnode : g.node? root = some node)
    (hheight : ∀ tree, Unfolds mode g (mode.left? node) tree → tree.height ≤ levels)
    (hstrays : g.Strays mode root child) :
    g.Overhangs mode (levels + 1) root ↔ g.Overhangs mode levels child := by
  constructor
  · rintro ⟨depth, id, node', tree, hway, hnode', htree, hdepth, hlevels⟩
    cases hway with
    | here =>
      rw [hnode] at hnode'
      cases hnode'
      have := hheight tree htree
      omega
    | @step depth _ child' _ hstep hrest =>
      rw [hstrays.unique hstep]
      exact ⟨depth, id, node', tree, hrest, hnode', htree, by omega, by omega⟩
  · rintro ⟨depth, id, node', tree, hway, hnode', htree, hdepth, hlevels⟩
    exact ⟨depth + 1, id, node', tree, .step hstrays hway, hnode', htree, by omega, by omega⟩

/-- **What a walk comes to from a cycle is on a cycle itself, or has a tree.** -/
theorem cycle_or_unfolds {turn : NodeId} (hcycle : TransGen (g.Proceeds mode) turn turn)
    (hpath : ReflTransGen (g.Proceeds mode) turn id) :
    TransGen (g.Proceeds mode) id id ∨ ∃ tree, Unfolds mode g (some (.node id)) tree := by
  induction hpath with
  | refl => exact Or.inl hcycle
  | @tail mid id _ hstep ih =>
    refine Classical.or_iff_not_imp_right.2 fun hid => ?_
    rcases ih with hmid | ⟨tree, htree⟩
    · -- The cycle leaves `mid` by an operand without a tree, and that can only be `id`.
      obtain ⟨next, hnext, hback⟩ := TransGen.head'_iff.1 hmid
      have hnone : ¬∃ tree, Unfolds mode g (some (.node next)) tree := by
        rintro ⟨tree, htree⟩
        obtain ⟨below, hbelow, _⟩ :=
          htree.exists_of_transGen (TransGen.tail' (meets_of_proceeds hback) hstep.leads)
        exact hid ⟨below, hbelow⟩
      obtain rfl : next = id := Strays.unique ⟨hnext, hnone⟩ ⟨hstep, hid⟩
      exact TransGen.tail' hback hnext
    · obtain ⟨below, hbelow, _⟩ := htree.exists_of_leads hstep.leads
      exact absurd ⟨below, hbelow⟩ hid

end ExprGraph

namespace Walk

variable {σ : Type} {visitor : Visitor σ} {root v : NodeId} {levels : Nat} {s s' : σ}

/-! ## How a descent gets too deep -/

/-- A descent that ends with a cycle has used up its levels. -/
theorem exists_trail_of_descend (h : visitor.NeverFails)
    (hrun : descend mode g visitor levels root s = .error (.cycle v) s') :
    ∃ trail : List NodeId, (trail ++ [v]).IsChain (g.Proceeds mode) ∧
      (trail ++ [v]).head? = some root ∧ trail.length = levels := by
  cases stops_of_descend hrun with
  | tooDeep trail _ hchain hroot hlength => exact ⟨trail, hchain, hroot, hlength⟩
  | refused _ _ hrefuses => exact absurd hrefuses h.not_refuses

/-- A descent gets through a tree if there are levels enough for it. -/
theorem descend_eq_ok_of_height (h : visitor.NeverFails) {tree : Unfolding}
    (htree : Unfolds mode g (some (.node root)) tree) (hheight : tree.height ≤ levels) (s : σ) :
    ∃ s', descend mode g visitor levels root s = .ok () s' := by
  obtain ⟨s', hrun⟩ := (run_eq_ok_iff h s).2 htree.orderlyBelow
  refine ⟨s', ?_⟩
  rw [descend_eq_walk htree hheight, ← descend_eq_walk htree htree.height_le]
  exact hrun

/-- Too deep within a tree, the node that is named has a tree of its own. -/
theorem unfolds_of_descend (h : visitor.NeverFails) {tree : Unfolding}
    (htree : Unfolds mode g (some (.node root)) tree)
    (hrun : descend mode g visitor levels root s = .error (.cycle v) s') :
    levels < tree.height ∧ ∃ below, Unfolds mode g (some (.node v)) below := by
  constructor
  · refine Classical.byContradiction fun hheight => ?_
    obtain ⟨_, hok⟩ := descend_eq_ok_of_height h htree (Nat.le_of_not_lt hheight) s
    rw [hrun] at hok
    cases hok
  · obtain ⟨trail, hchain, hroot, _⟩ := exists_trail_of_descend h hrun
    have hpath : ReflTransGen (g.Proceeds mode) root v :=
      reflTransGen_of_trail hchain hroot (List.mem_append_right _ (List.mem_singleton_self v))
    rcases reflTransGen_iff_eq_or_transGen.1 (ExprGraph.meets_of_proceeds hpath) with rfl | hbelow
    · exact ⟨tree, htree⟩
    · obtain ⟨below, hunfolds, _⟩ := htree.exists_of_transGen hbelow
      exact ⟨below, hunfolds⟩

/-- Without a tree to walk, a descent gets too deep in a left operand that has one, or else it does
so further down the way that never ends. -/
theorem strays_of_descend (h : visitor.NeverFails)
    (hroot : ¬∃ tree, Unfolds mode g (some (.node root)) tree)
    (hrun : descend mode g visitor (levels + 1) root s = .error (.cycle v) s') :
    ∃ node, g.node? root = some node ∧
      ((∃ tree, Unfolds mode g (mode.left? node) tree ∧ levels < tree.height ∧
          ∃ below, Unfolds mode g (some (.node v)) below) ∨
        ∃ child mid, (∀ tree, Unfolds mode g (mode.left? node) tree → tree.height ≤ levels) ∧
          g.Strays mode root child ∧
          descend mode g visitor levels child mid = .error (.cycle v) s') := by
  cases hnode : g.node? root with
  | none =>
    rw [descend_outOfRange mode visitor levels hnode] at hrun
    cases hrun
  | some node =>
    refine ⟨node, rfl, ?_⟩
    have hgrants : ¬visitor.Refuses mode root node (.cycle v) := h.not_refuses
    rw [descend_node mode visitor levels hnode] at hrun
    rcases bind_eq_error_iff.1 hrun with henter | ⟨_, _, _, hrun⟩
    · exact absurd (.enter henter) hgrants
    rcases bind_eq_error_iff.1 hrun with hleft | ⟨_, _, hleft, hrun⟩
    · rcases follow_eq_error_iff.1 hleft with ⟨leaf, hleaf, hvisit⟩ | ⟨child, hchild, hbelow⟩
      · exact absurd (.left hleaf hvisit) hgrants
      by_cases htree : ∃ tree, Unfolds mode g (some (.node child)) tree
      · obtain ⟨tree, htree⟩ := htree
        obtain ⟨hheight, hv⟩ := unfolds_of_descend h htree hbelow
        exact Or.inl ⟨tree, hchild ▸ htree, hheight, hv⟩
      · refine Or.inr ⟨child, _, ?_, ⟨⟨node, hnode, Or.inl hchild⟩, htree⟩, hbelow⟩
        intro tree hunfolds
        exact absurd ⟨tree, hchild ▸ hunfolds⟩ htree
    -- The left operand has been walked, so the right one has no tree, or else the root had one.
    obtain ⟨left, hunfolds, hheight⟩ := exists_unfolds_of_follow hleft
    rcases bind_eq_error_iff.1 hrun with hself | ⟨_, _, _, hrun⟩
    · exact absurd (.self hself) hgrants
    rcases bind_eq_error_iff.1 hrun with hright | ⟨_, _, _, hleave⟩
    · rcases follow_eq_error_iff.1 hright with ⟨leaf, hleaf, hvisit⟩ | ⟨child, hchild, hbelow⟩
      · exact absurd (.right hleaf hvisit) hgrants
      have hnone : ¬∃ tree, Unfolds mode g (some (.node child)) tree := by
        rintro ⟨right, hright⟩
        exact hroot ⟨_, .node hnode hunfolds (hchild ▸ hright)⟩
      refine Or.inr ⟨child, _, ?_, ⟨⟨node, hnode, Or.inr ⟨hchild, left, hunfolds⟩⟩, hnone⟩, hbelow⟩
      intro tree htree
      rw [htree.unique hunfolds]
      exact hheight
    · exact absurd (.leave hleave) hgrants

/-- **The node that is named has a tree exactly when an operand overhangs.** -/
theorem unfolds_iff_overhangs (h : visitor.NeverFails)
    (hroot : ¬∃ tree, Unfolds mode g (some (.node root)) tree)
    (hrun : descend mode g visitor levels root s = .error (.cycle v) s') :
    (∃ tree, Unfolds mode g (some (.node v)) tree) ↔ g.Overhangs mode levels root := by
  -- By induction on the levels, along the way that never ends.
  induction levels generalizing root s with
  | zero =>
    cases hrun
    constructor
    · intro htree
      exact absurd htree hroot
    · rintro ⟨_, _, _, _, _, _, _, hdepth, _⟩
      exact absurd hdepth (Nat.not_lt_zero _)
  | succ levels ih =>
    obtain ⟨node, hnode, ⟨tree, htree, hheight, hv⟩ | ⟨child, mid, hheight, hstrays, hbelow⟩⟩ :=
      strays_of_descend h hroot hrun
    · exact iff_of_true hv (ExprGraph.overhangs_of_height hnode htree hheight)
    · rw [ih hstrays.2 hbelow, ExprGraph.overhangs_succ_iff hnode hheight hstrays]

/-! ## The node that is named -/

/-- **What is known of the node a cycle is reported at.**  It is a node of the graph, and reachable
from a cycle that the walk comes to.  It is reachable from itself exactly when no operand with a
tree, beside the way that never ends, reaches below the last level. -/
theorem reported_verdict (h : visitor.NeverFails)
    (hrun : run mode g visitor root s = .error (.cycle v) s') :
    v < g.size ∧
      (∃ turn, g.Meets mode root turn ∧ TransGen (g.Leads mode) turn turn ∧
        g.Meets mode turn v) ∧
      (TransGen (g.Leads mode) v v ↔ ¬g.Overhangs mode (g.size + 1) root) := by
  have hroot : ¬∃ tree, Unfolds mode g (some (.node root)) tree :=
    (runsInto_of_run h hrun).not_unfolds
  obtain ⟨trail, hchain, htrail, hlength⟩ := exists_trail_of_descend h hrun
  obtain ⟨turn, hpath, hcycle, hv⟩ :=
    exists_turn_of_trail (fun _ _ hstep => hstep.lt_size) hchain htrail
      (by omega : g.size < trail.length)
  have hcases := ExprGraph.cycle_or_unfolds hcycle hv
  refine ⟨?_, ⟨turn, ExprGraph.meets_of_proceeds hpath, ExprGraph.cycle_of_proceeds hcycle,
    ExprGraph.meets_of_proceeds hv⟩, ?_⟩
  · rcases hcases with hon | ⟨tree, htree⟩
    · obtain ⟨next, hnext, _⟩ := TransGen.head'_iff.1 hon
      exact hnext.lt_size
    · exact htree.orderlyBelow.inRange v .refl
  · rw [← unfolds_iff_overhangs h hroot hrun]
    constructor
    · rintro hon ⟨tree, htree⟩
      exact htree.orderlyBelow.acyclic v .refl hon
    · intro hnone
      rcases hcases with hon | htree
      · exact ExprGraph.cycle_of_proceeds hon
      · exact absurd htree hnone

/-- Two sums that use each other, one of them after a sum of leaves. -/
def sumLoop : ExprGraph :=
  ⟨#[⟨.canonical .add, .node 2, some (.node 1)⟩, ⟨.canonical .add, .node 0, some anyLeaf⟩,
    ⟨.canonical .add, anyLeaf, some anyLeaf⟩]⟩

/-- From the first sum the walk gets too deep on the loop, as the sum of leaves stays above. -/
theorem sumLoop_reports_loop : Event.recorder.NeverFails ∧
    (∃ recorded, run .fused sumLoop Event.recorder 0 #[] = .error (.cycle 0) recorded) ∧
    TransGen (sumLoop.Leads .fused) 0 0 ∧ ¬sumLoop.Overhangs .fused (sumLoop.size + 1) 0 := by
  have hrun : ∃ recorded, run .fused sumLoop Event.recorder 0 #[] = .error (.cycle 0) recorded :=
    ⟨_, rfl⟩
  have hcycle : TransGen (sumLoop.Leads .fused) 0 0 := by
    exact TransGen.head (b := 1) ⟨_, rfl, Or.inr rfl⟩ (.single ⟨_, rfl, Or.inl rfl⟩)
  refine ⟨Event.recorder_neverFails, hrun, hcycle, ?_⟩
  obtain ⟨recorded, hrun⟩ := hrun
  exact (reported_verdict Event.recorder_neverFails hrun).2.2.1 hcycle

/-- A sum that uses itself, after a sum of leaves. -/
def selfSum : ExprGraph :=
  ⟨#[⟨.canonical .add, .node 1, some (.node 0)⟩, ⟨.canonical .add, anyLeaf, some anyLeaf⟩]⟩

/-- The second time around, the sum of leaves is too deep, and it is not part of any cycle. -/
theorem selfSum_reports_leaves : Event.recorder.NeverFails ∧
    (∃ recorded, run .fused selfSum Event.recorder 0 #[] = .error (.cycle 1) recorded) ∧
    ¬TransGen (selfSum.Leads .fused) 1 1 := by
  have htree : Unfolds .fused selfSum (some (.node 1)) (.branch 1 _ .empty .empty) :=
    .node rfl (.leaf _) (.leaf _)
  exact ⟨Event.recorder_neverFails, ⟨_, rfl⟩, htree.orderlyBelow.acyclic 1 .refl⟩

end Walk

end FusedKernel
