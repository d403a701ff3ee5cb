import FusedKernel.Proofs.Graph.TreeEvents
import Mathlib.Data.Set.Card

/-!
# How often a walk comes to a node

A walk comes to a node once for each route there.  Routes are counted as ways along operands, so
a node that is used twice by another one is reached in twice as many ways, and with much sharing
their number grows exponentially.  No visit is lost, and none is made twice.

* `ExprGraph.Route`, `ExprGraph.routes` — the ways from one node to another one.
* `Unfolding.positions` — where a node stands in a tree.
* `Walk.ownEvents` — what happens at a node each time the walk comes to it.

Principal results: `mem_positions_iff` — the places of a node in the tree are the routes to it;
`count_events` — each of them brings the events of the node once; `run_calls` — the calls of a
walk, counted by routes.
-/

set_option autoImplicit false

namespace FusedKernel

variable {σ : Type} {mode : Walk.Mode} {g : ExprGraph}

/-- The operand on a side of a node, if there is one. -/
def Node.operand? (node : Node) : Side → Option Operand
  | .left => some node.left
  | .right => node.right
  | .self => none

/-! ## Routes -/

namespace ExprGraph

/-- A way from one node to another one along operands that are followed, given by the sides taken.
From a given node no two ways have the same sides. -/
inductive Route (g : ExprGraph) (mode : Walk.Mode) : NodeId → List Side → NodeId → Prop
  | here {id : NodeId} : Route g mode id [] id
  | left {id child target : NodeId} {node : Node} {sides : List Side}
      (hnode : g.node? id = some node) (hchild : mode.left? node = some (.node child))
      (hrest : Route g mode child sides target) : Route g mode id (.left :: sides) target
  | right {id child target : NodeId} {node : Node} {sides : List Side}
      (hnode : g.node? id = some node) (hchild : mode.right? node = some (.node child))
      (hrest : Route g mode child sides target) : Route g mode id (.right :: sides) target

/-- All ways from one node to another one. -/
def routes (g : ExprGraph) (mode : Walk.Mode) (root target : NodeId) : Set (List Side) :=
  {sides | g.Route mode root sides target}

/-- The walk follows the operand on a side of a node, and it is a leaf. -/
def FollowsLeaf (g : ExprGraph) (mode : Walk.Mode) (id : NodeId) (side : Side) : Prop :=
  ∃ node leaf, g.node? id = some node ∧ mode.follows node = true ∧
    node.operand? side = some (.leaf leaf)

theorem Route.meets {id target : NodeId} {sides : List Side} (h : g.Route mode id sides target) :
    g.Meets mode id target := by
  induction h with
  | here => exact .refl
  | left hnode hchild _ ih => exact .head ⟨_, hnode, Or.inl hchild⟩ ih
  | right hnode hchild _ ih => exact .head ⟨_, hnode, Or.inr hchild⟩ ih

end ExprGraph

/-! ## Places in a tree -/

/-- The places of a node in a tree, each given by the sides on the way down to it. -/
def Unfolding.positions (target : NodeId) : Unfolding → List (List Side)
  | empty => []
  | branch id _ left right =>
    (if id = target then [[]] else []) ++
      ((left.positions target).map (.left :: ·) ++ (right.positions target).map (.right :: ·))

theorem Unfolding.nodup_positions (target : NodeId) (tree : Unfolding) :
    (tree.positions target).Nodup := by
  induction tree with
  | empty => exact List.nodup_nil
  | branch id node left right ihleft ihright =>
    have hleft := ihleft.map (List.cons_injective (a := Side.left))
    have hright := ihright.map (List.cons_injective (a := Side.right))
    have hbelow := hleft.append hright (by simp [List.Disjoint])
    refine List.Nodup.append (by split <;> simp) hbelow ?_
    split <;> simp [List.Disjoint]

/-- **The places of a node in the tree are the routes to it.** -/
theorem Unfolds.mem_positions_iff {operand : Option Operand} {tree : Unfolding}
    (h : Unfolds mode g operand tree) {target : NodeId} {sides : List Side} :
    sides ∈ tree.positions target ↔
      ∃ id, operand = some (.node id) ∧ g.Route mode id sides target := by
  induction h generalizing sides with
  | none => simp [Unfolding.positions]
  | leaf leaf => simp [Unfolding.positions]
  | @node id node left right hnode _ _ ihleft ihright =>
    simp only [Unfolding.positions, List.mem_append, List.mem_map, ihleft, ihright]
    constructor
    · rintro (hhere | ⟨rest, ⟨child, hchild, hroute⟩, rfl⟩ | ⟨rest, ⟨child, hchild, hroute⟩, rfl⟩)
      · split at hhere
        · rename_i hid
          subst hid
          rw [List.mem_singleton.1 hhere]
          exact ⟨id, rfl, .here⟩
        · cases hhere
      · exact ⟨id, rfl, .left hnode hchild hroute⟩
      · exact ⟨id, rfl, .right hnode hchild hroute⟩
    · rintro ⟨id', hid, hroute⟩
      cases hid
      cases hroute with
      | here => exact Or.inl (by simp)
      | @left _ child _ _ rest hnode' hchild hrest =>
        rw [hnode] at hnode'
        cases hnode'
        exact Or.inr (Or.inl ⟨rest, ⟨child, hchild, hrest⟩, rfl⟩)
      | @right _ child _ _ rest hnode' hchild hrest =>
        rw [hnode] at hnode'
        cases hnode'
        exact Or.inr (Or.inr ⟨rest, ⟨child, hchild, hrest⟩, rfl⟩)

/-- So there are finitely many routes, as many as places. -/
theorem Unfolds.encard_routes {root : NodeId} {tree : Unfolding}
    (h : Unfolds mode g (some (.node root)) tree) (target : NodeId) :
    (g.routes mode root target).encard = (tree.positions target).length := by
  have hset : g.routes mode root target = ((tree.positions target).toFinset : Set (List Side)) := by
    ext sides
    rw [Finset.mem_coe, List.mem_toFinset, h.mem_positions_iff]
    constructor
    · intro hroute
      exact ⟨root, rfl, hroute⟩
    · rintro ⟨id, hid, hroute⟩
      cases hid
      exact hroute
  rw [hset, Set.encard_coe_eq_coe_finsetCard,
    List.toFinset_card_of_nodup (tree.nodup_positions target)]

/-! ## Counting events -/

namespace Walk

/-- What happens at a node when the walk comes to it, without what happens below. -/
def ownEvents (mode : Mode) (id : NodeId) (node : Node) : List Event :=
  .opened id :: (leafVisit .left id (mode.left? node) ++
    .visited .self id :: (leafVisit .right id (mode.right? node) ++ [.closed id]))

theorem mem_leafVisit_iff {side : Side} {id : NodeId} {operand : Option Operand} {event : Event} :
    event ∈ leafVisit side id operand ↔
      event = .visited side id ∧ ∃ leaf, operand = some (.leaf leaf) := by
  rcases operand with _ | _ | _ <;> simp [leafVisit]

section OwnEvents

variable {id : NodeId} {node : Node} {event : Event}

theorem node_of_mem_ownEvents (h : event ∈ ownEvents mode id node) : event.node = id := by
  simp only [ownEvents, List.mem_cons, List.mem_append, List.not_mem_nil, or_false,
    mem_leafVisit_iff] at h
  rcases h with rfl | ⟨rfl, _⟩ | rfl | ⟨rfl, _⟩ | rfl <;> rfl

/-- Nothing happens twice at a node each time the walk comes to it. -/
theorem nodup_ownEvents (mode : Mode) (id : NodeId) (node : Node) :
    (ownEvents mode id node).Nodup := by
  unfold ownEvents
  rcases mode.left? node with _ | _ | _ <;> rcases mode.right? node with _ | _ | _ <;>
    simp [leafVisit]

/-- Besides a node itself, those of its leaves are visited that are followed. -/
theorem visited_mem_ownEvents_iff {side : Side} (hside : side ≠ .self) :
    .visited side id ∈ ownEvents mode id node ↔
      mode.follows node = true ∧ ∃ leaf, node.operand? side = some (.leaf leaf) := by
  cases side with
  | self => exact absurd rfl hside
  | left => simp [ownEvents, mem_leafVisit_iff, Mode.left?, Node.operand?]
  | right => simp [ownEvents, mem_leafVisit_iff, Mode.right?, Node.operand?]

end OwnEvents

/-- How often an event is among those of the node it is at. -/
def ownCount (g : ExprGraph) (mode : Mode) (event : Event) : Nat :=
  match g.node? event.node with
  | none => 0
  | some node => (ownEvents mode event.node node).count event

end Walk

theorem Unfolding.count_events_branch (mode : Walk.Mode) (id : NodeId) (node : Node)
    (left right : Unfolding) (event : Event) :
    ((branch id node left right).events mode).count event =
      (Walk.ownEvents mode id node).count event + (left.events mode).count event +
        (right.events mode).count event := by
  simp only [events, Walk.ownEvents, List.count_cons, List.count_append, List.count_nil]
  omega

/-- **Each place of a node in the tree brings the events of the node once.** -/
theorem Unfolds.count_events {operand : Option Operand} {tree : Unfolding}
    (h : Unfolds mode g operand tree) (event : Event) :
    (tree.events mode).count event =
      (tree.positions event.node).length * Walk.ownCount g mode event := by
  induction h with
  | none => simp [Unfolding.events, Unfolding.positions]
  | leaf leaf => simp [Unfolding.events, Unfolding.positions]
  | @node id node left right hnode _ _ ihleft ihright =>
    have hown : (Walk.ownEvents mode id node).count event =
        (if id = event.node then 1 else 0) * Walk.ownCount g mode event := by
      by_cases hid : id = event.node
      · subst hid
        rw [if_pos rfl, Nat.one_mul, Walk.ownCount, hnode]
      · rw [if_neg hid, Nat.zero_mul, List.count_eq_zero]
        exact fun hmem => hid (Walk.node_of_mem_ownEvents hmem).symm
    have hlength : ((Unfolding.branch id node left right).positions event.node).length =
        (if id = event.node then 1 else 0) + (left.positions event.node).length +
          (right.positions event.node).length := by
      simp only [Unfolding.positions, List.length_append, List.length_map]
      split <;> simp [Nat.add_assoc]
    rw [Unfolding.count_events_branch, ihleft, ihright, hown, hlength, Nat.add_mul, Nat.add_mul]

/-! ## The calls of a walk -/

/-- A node that has a place in the tree is a node of the graph. -/
theorem Unfolds.exists_node {root id : NodeId} {tree : Unfolding}
    (h : Unfolds mode g (some (.node root)) tree) (hne : tree.positions id ≠ []) :
    ∃ node, g.node? id = some node := by
  obtain ⟨sides, hsides⟩ := List.exists_mem_of_ne_nil _ hne
  obtain ⟨start, hstart, hroute⟩ := h.mem_positions_iff.1 hsides
  cases hstart
  exact ⟨_, g.node?_eq_get ⟨id, h.orderlyBelow.inRange id hroute.meets⟩⟩

/-- What happens at a node whenever the walk comes to it happens as often as it has places. -/
theorem Unfolds.count_events_of_mem {root : NodeId} {tree : Unfolding}
    (h : Unfolds mode g (some (.node root)) tree) {event : Event}
    (hown : ∀ node, g.node? event.node = some node →
      event ∈ Walk.ownEvents mode event.node node) :
    (tree.events mode).count event = (tree.positions event.node).length := by
  rw [h.count_events]
  -- Where the node has no place, it need not be one of the graph.
  by_cases hne : tree.positions event.node = []
  · simp [hne]
  · obtain ⟨node, hnode⟩ := h.exists_node hne
    have hone : (Walk.ownEvents mode event.node node).count event = 1 :=
      List.count_eq_one_of_mem (Walk.nodup_ownEvents _ _ _) (hown node hnode)
    simp only [Walk.ownCount, hnode, hone, Nat.mul_one]

theorem Unfolds.count_events_of_not_mem {operand : Option Operand} {tree : Unfolding}
    (h : Unfolds mode g operand tree) {event : Event}
    (hown : ∀ node, g.node? event.node = some node →
      event ∉ Walk.ownEvents mode event.node node) :
    (tree.events mode).count event = 0 := by
  have hzero : Walk.ownCount g mode event = 0 := by
    unfold Walk.ownCount
    cases hnode : g.node? event.node with
    | none => rfl
    | some node => exact List.count_eq_zero.2 (hown node hnode)
  rw [h.count_events, hzero, Nat.mul_zero]

namespace Walk

variable {visitor : Visitor σ} {root : NodeId} {s s' : σ}

/-- **The calls of a walk that succeeds.**  They are properly nested, and each node is opened,
visited and closed as often as there are routes to it from the root; so is each of its leaves, if
the walk follows its operands, and otherwise none is. -/
theorem run_calls (hrun : run mode g visitor root s = .ok () s') :
    visitor.replay g (events mode g root) s = .ok () s' ∧
    Event.Nested (events mode g root) ∧
    ∀ id, ∃ count : Nat, (g.routes mode root id).encard = count ∧
      (events mode g root).count (.opened id) = count ∧
      (events mode g root).count (.visited .self id) = count ∧
      (events mode g root).count (.closed id) = count ∧
      ∀ side, side ≠ .self →
        (g.FollowsLeaf mode id side →
          (events mode g root).count (.visited side id) = count) ∧
        (¬g.FollowsLeaf mode id side →
          (events mode g root).count (.visited side id) = 0) := by
  obtain ⟨tree, htree, hevents, hreplay⟩ := exists_tree_of_run hrun
  refine ⟨hreplay, ?_, ?_⟩
  · rw [hevents]
    exact tree.nested_events mode
  · intro id
    rw [hevents]
    refine ⟨(tree.positions id).length, htree.encard_routes id, ?_, ?_, ?_, ?_⟩
    · exact htree.count_events_of_mem fun node _ => by simp [ownEvents, Event.node]
    · exact htree.count_events_of_mem fun node _ => by simp [ownEvents, Event.node]
    · exact htree.count_events_of_mem fun node _ => by simp [ownEvents, Event.node]
    · intro side hside
      constructor
      · rintro ⟨node, leaf, hnode, hfollows, hleaf⟩
        refine htree.count_events_of_mem fun node' hnode' => ?_
        rw [show g.node? id = some node' from hnode'] at hnode
        cases hnode
        exact (visited_mem_ownEvents_iff hside).2 ⟨hfollows, leaf, hleaf⟩
      · intro hnot
        refine htree.count_events_of_not_mem fun node hnode hmem => ?_
        obtain ⟨hfollows, leaf, hleaf⟩ := (visited_mem_ownEvents_iff hside).1 hmem
        exact hnot ⟨node, leaf, hnode, hfollows, hleaf⟩

/-- A sum that is used twice by one that is used twice is reached in four ways, and its leaves are
visited as often.  What stands below a norm is not. -/
theorem sharedSums_calls : (∃ recorded, run .fused sharedSums Event.recorder 5 #[] =
      .ok () recorded) ∧
    (sharedSums.routes .fused 5 0).encard = 4 ∧
    (events .fused sharedSums 5).count (.visited .right 0) = 4 ∧
    (sharedSums.routes .fused 5 4).encard = 1 ∧
    (events .fused sharedSums 5).count (.visited .left 3) = 0 := by
  have hrun : ∃ recorded, run .fused sharedSums Event.recorder 5 #[] = .ok () recorded := ⟨_, rfl⟩
  obtain ⟨recorded, hok⟩ := hrun
  obtain ⟨_, _, hcalls⟩ := run_calls hok
  obtain ⟨count, hroutes, hopened, _, _, hleaves⟩ := hcalls 0
  obtain ⟨count', hroutes', hopened', _⟩ := hcalls 4
  have hfour : count = 4 := hopened.symm.trans (by rfl)
  have hone : count' = 1 := hopened'.symm.trans (by rfl)
  subst hfour hone
  have hleaf : sharedSums.FollowsLeaf .fused 0 .right := ⟨_, _, rfl, rfl, rfl⟩
  refine ⟨⟨recorded, hok⟩, hroutes, (hleaves .right (by decide)).1 hleaf, hroutes', ?_⟩
  rfl

end Walk

end FusedKernel
