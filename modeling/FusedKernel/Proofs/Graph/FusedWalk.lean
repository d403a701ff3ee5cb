import FusedKernel.Proofs.Graph.Routes

/-!
# A fused walk within the full one

A fused walk does what the full walk does, except that it leaves out what stands below a node with
a kernel to itself.  So its events are found among those of the full walk, by cutting out the
inside of brackets.  A node that is only left out on one way to it is still walked on the others.

* `Event.cutInside` — cuts out what stands inside the outermost brackets of nodes of some kind.
* `Unfolding.inlined` — the part of a tree that a fused walk comes to.

Principal results: `skipInside_events` — nothing of a tree is left inside a bracket;
`cutInside_events` — cutting the events of a tree gives those of its inlined part;
`fused_events` — the events of a fused walk.
-/

set_option autoImplicit false

namespace FusedKernel

open Relation

/-- There is a node at the number, and it gets a kernel to itself. -/
def ExprGraph.needsKernel (g : ExprGraph) (id : NodeId) : Bool :=
  (g.node? id).any (·.operation.needsKernel)

theorem ExprGraph.needsKernel_of_node? {g : ExprGraph} {id : NodeId} {node : Node}
    (h : g.node? id = some node) : g.needsKernel id = node.operation.needsKernel := by
  rw [needsKernel, h, Option.any_some]

/-! ## Cutting brackets out -/

namespace Event

mutual

/-- Takes out what stands inside the outermost brackets of nodes of a kind, except for the visits
of those nodes themselves. -/
def cutInside (kind : NodeId → Bool) : List Event → List Event
  | [] => []
  | event :: events =>
    event :: match event with
      | opened id => if kind id then skipInside kind id 0 events else cutInside kind events
      | visited _ _ | closed _ => cutInside kind events

/-- Goes on inside the bracket of a node, with so many brackets open within it. -/
def skipInside (kind : NodeId → Bool) (id : NodeId) : Nat → List Event → List Event
  | _, [] => []
  | depth, opened _ :: events => skipInside kind id (depth + 1) events
  | depth, visited side other :: events =>
    (if visited side other = visited .self id then [visited side other] else []) ++
      skipInside kind id depth events
  | depth + 1, closed _ :: events => skipInside kind id depth events
  | 0, closed other :: events => closed other :: cutInside kind events

end

variable {kind : NodeId → Bool}

/-- Where no bracket is of the kind, nothing is taken out. -/
theorem cutInside_eq_self {events : List Event}
    (h : ∀ id, opened id ∈ events → kind id = false) : cutInside kind events = events := by
  induction events with
  | nil => rfl
  | cons event events ih =>
    have hrest := ih fun id hmem => h id (List.mem_cons_of_mem _ hmem)
    cases event with
    | opened id => simp [cutInside, h id List.mem_cons_self, hrest]
    | visited side id => simp [cutInside, hrest]
    | closed id => simp [cutInside, hrest]

theorem cutInside_leafVisit (side : Side) (id : NodeId) (operand : Option Operand)
    (rest : List Event) :
    cutInside kind (Walk.leafVisit side id operand ++ rest) =
      Walk.leafVisit side id operand ++ cutInside kind rest := by
  rcases operand with _ | _ | _ <;> rfl

theorem skipInside_leafVisit {side : Side} (hside : side ≠ .self) (id other : NodeId)
    (depth : Nat) (operand : Option Operand) (rest : List Event) :
    skipInside kind id depth (Walk.leafVisit side other operand ++ rest) =
      skipInside kind id depth rest := by
  rcases operand with _ | _ | _ <;> simp [Walk.leafVisit, skipInside, hside]

end Event

/-- **Inside a bracket, nothing is left of a tree,** unless the node of the bracket stands in it. -/
theorem Unfolding.skipInside_events {kind : NodeId → Bool} {mode : Walk.Mode} {tree : Unfolding}
    {id : NodeId} (h : tree.positions id = []) (depth : Nat) (rest : List Event) :
    Event.skipInside kind id depth (tree.events mode ++ rest) =
      Event.skipInside kind id depth rest := by
  induction tree generalizing depth rest with
  | empty => rfl
  | branch other node left right ihleft ihright =>
    have hparts : other ≠ id ∧ left.positions id = [] ∧ right.positions id = [] := by
      simpa [positions] using h
    obtain ⟨hother, hleft, hright⟩ := hparts
    simp only [events, List.cons_append, List.append_assoc, Event.skipInside,
      Event.skipInside_leafVisit, ihleft hleft, ihright hright, ne_eq, reduceCtorEq,
      not_false_eq_true]
    simp [hother]

/-! ## The inlined part of a tree -/

/-- What is left of a tree if nothing stands below nodes with a kernel to themselves. -/
def Unfolding.inlined : Unfolding → Unfolding
  | empty => empty
  | branch id node left right =>
    if node.operation.needsKernel then branch id node empty empty
    else branch id node left.inlined right.inlined

variable {σ : Type} {g : ExprGraph}

/-- A fused walk makes of an operand the inlined part of what a full walk makes of it. -/
theorem Unfolds.inlined {operand : Option Operand} {tree : Unfolding}
    (h : Unfolds .full g operand tree) : Unfolds .fused g operand tree.inlined := by
  induction h with
  | none => exact .none
  | leaf leaf => exact .leaf leaf
  | @node id node left right hnode _ _ ihleft ihright =>
    rw [Unfolding.inlined]
    cases hkernel : node.operation.needsKernel with
    | true =>
      obtain ⟨hleft, hright⟩ := Walk.Mode.fused_of_needsKernel hkernel
      exact .node hnode (hleft ▸ .none) (hright ▸ .none)
    | false =>
      obtain ⟨hleft, hright⟩ := Walk.Mode.fused_of_inline hkernel
      exact .node hnode (hleft ▸ ihleft) (hright ▸ ihright)

/-- No node stands below itself. -/
theorem Unfolds.positions_below {mode : Walk.Mode} {id : NodeId} {node : Node}
    {left right : Unfolding} (h : Unfolds mode g (some (.node id)) (.branch id node left right)) :
    left.positions id = [] ∧ right.positions id = [] := by
  have hacyclic : ¬TransGen (g.Leads mode) id id := h.orderlyBelow.acyclic id .refl
  have hbelow : ∀ {operand : Option Operand} {tree : Unfolding}, Unfolds mode g operand tree →
      (∀ child, operand = some (.node child) → g.Leads mode id child) →
      tree.positions id = [] := by
    intro operand tree htree hleads
    by_contra hne
    obtain ⟨sides, hsides⟩ := List.exists_mem_of_ne_nil _ hne
    obtain ⟨child, hchild, hroute⟩ := htree.mem_positions_iff.1 hsides
    exact hacyclic (.head' (hleads child hchild) hroute.meets)
  cases h with
  | node hnode hleft hright =>
    exact ⟨hbelow hleft fun child hchild => ⟨node, hnode, Or.inl hchild⟩,
      hbelow hright fun child hchild => ⟨node, hnode, Or.inr hchild⟩⟩

/-- What the events of a tree are at is met from its root. -/
theorem Unfolds.meets_of_mem_events {mode : Walk.Mode} {root : NodeId} {tree : Unfolding}
    (h : Unfolds mode g (some (.node root)) tree) {event : Event}
    (hmem : event ∈ tree.events mode) : g.Meets mode root event.node := by
  have hcount := List.count_pos_iff.2 hmem
  rw [h.count_events] at hcount
  obtain ⟨sides, hsides⟩ := List.exists_mem_of_length_pos (Nat.pos_of_mul_pos_right hcount)
  obtain ⟨start, hstart, hroute⟩ := h.mem_positions_iff.1 hsides
  cases hstart
  exact hroute.meets

/-- **Cutting the events of a tree gives those of its inlined part.**  By induction on the tree: at
a node with a kernel to itself both operands are skipped, at any other node both are cut. -/
theorem Unfolds.cutInside_events {operand : Option Operand} {tree : Unfolding}
    (h : Unfolds .full g operand tree) (rest : List Event) :
    Event.cutInside g.needsKernel (tree.events .full ++ rest) =
      tree.inlined.events .fused ++ Event.cutInside g.needsKernel rest := by
  induction h generalizing rest with
  | none => rfl
  | leaf leaf => rfl
  | @node id node left right hnode hleft hright ihleft ihright =>
    have hkind : g.needsKernel id = node.operation.needsKernel :=
      ExprGraph.needsKernel_of_node? hnode
    rw [Unfolding.inlined, ← hkind]
    cases hkernel : g.needsKernel id with
    | true =>
      -- The visit that is kept is the node's own: it has no other place within its bracket.
      obtain ⟨hskipLeft, hskipRight⟩ := (Unfolds.node hnode hleft hright).positions_below
      obtain ⟨hnoneLeft, hnoneRight⟩ := Walk.Mode.fused_of_needsKernel (hkind ▸ hkernel)
      have hkept : (Unfolding.branch id node .empty .empty).events .fused =
          [.opened id, .visited .self id, .closed id] := by
        rw [Unfolding.events, hnoneLeft, hnoneRight]
        rfl
      rw [if_pos rfl, hkept]
      simp [Unfolding.events, Event.cutInside, hkernel, Event.skipInside,
        Event.skipInside_leafVisit, Unfolding.skipInside_events hskipLeft,
        Unfolding.skipInside_events hskipRight]
    | false =>
      obtain ⟨hfusedLeft, hfusedRight⟩ := Walk.Mode.fused_of_inline (hkind ▸ hkernel)
      have hfullLeft : Walk.Mode.full.left? node = some node.left := rfl
      have hfullRight : Walk.Mode.full.right? node = node.right := rfl
      simp [Unfolding.events, Event.cutInside, hkernel, Event.cutInside_leafVisit, ihleft, ihright,
        hfusedLeft, hfusedRight, hfullLeft, hfullRight]

/-! ## The events of a fused walk -/

namespace Walk

variable {visitor : Visitor σ} {root : NodeId} {s s' : σ}

/-- **The events of a fused walk.**  Where the full walk succeeds, so does the fused one.  Its
events are those of the full walk without what stands inside the outermost brackets of nodes with a
kernel to themselves, apart from the visits of these nodes.  Without such nodes, both have the same
events. -/
theorem fused_events (hnever : visitor.NeverFails)
    (hrun : run .full g visitor root s = .ok () s') :
    (∃ s'', run .fused g visitor root s = .ok () s'') ∧
    events .fused g root = Event.cutInside g.needsKernel (events .full g root) ∧
    ((∀ id, g.Meets .full root id → g.needsKernel id = false) →
      events .fused g root = events .full g root) := by
  obtain ⟨tree, htree, hevents, _⟩ := exists_tree_of_run hrun
  have hcut : events .fused g root = Event.cutInside g.needsKernel (events .full g root) := by
    have hwhole := htree.cutInside_events []
    rw [List.append_nil] at hwhole
    rw [hevents, hwhole, (events_eq_of_unfolds htree.inlined).1]
    simp [Event.cutInside]
  refine ⟨(run_eq_ok_iff hnever s).2 htree.inlined.orderlyBelow, hcut, ?_⟩
  intro hnone
  rw [hcut, hevents]
  refine Event.cutInside_eq_self fun id hmem => hnone id ?_
  exact htree.meets_of_mem_events hmem

/-- A quotient of an inner product and of a norm that is also part of the inner product. -/
def sharedNorm : ExprGraph :=
  ⟨#[⟨.canonical .add, anyLeaf, some anyLeaf⟩, ⟨.canonical .norm1, .node 0, none⟩,
    ⟨.canonical .innerProduct, .node 1, some (.node 0)⟩,
    ⟨.canonical .div, .node 2, some (.node 1)⟩]⟩

/-- The norm is left out where it stands below the inner product, and only there. -/
theorem sharedNorm_events : Event.recorder.NeverFails ∧
    (∃ recorded, run .full sharedNorm Event.recorder 3 #[] = .ok () recorded) ∧
    (events .full sharedNorm 3).length = 27 ∧
    events .fused sharedNorm 3 =
      [.opened 3, .opened 2, .visited .self 2, .closed 2, .visited .self 3,
        .opened 1, .visited .self 1, .closed 1, .closed 3] := by
  have hrun : ∃ recorded, run .full sharedNorm Event.recorder 3 #[] = .ok () recorded := ⟨_, rfl⟩
  obtain ⟨recorded, hok⟩ := hrun
  obtain ⟨_, hcut, _⟩ := fused_events Event.recorder_neverFails hok
  refine ⟨Event.recorder_neverFails, ⟨recorded, hok⟩, by rfl, ?_⟩
  rw [hcut]
  rfl

end Walk

end FusedKernel
