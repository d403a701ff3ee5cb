import FusedKernel.Proofs.Graph.Unfolding
import Mathlib.Data.List.Chain
import Mathlib.Data.List.Perm.Subperm

/-!
# What stops a walk

A walk comes to the right operand of a node only after it has been through everything below the
left one.  So it stops at the first fault on its way: a number that no node has, or a cycle.
It never notices the cycle itself.  It notices that it has gone down further than there are
nodes, and then some node on its path must have come twice.

* `ExprGraph.OrderlyBelow` — all nodes met from a node are in range, and none meets itself.
* `ExprGraph.Proceeds` — a walk goes on from one node to another one.
* `ExprGraph.RunsInto` — the fault on the way of a walk.
* `Walk.Stops` — everything that can stop a descent.

Principal results: `Unfolds.orderlyBelow`; `RunsInto.alike` — there is only one fault on the way;
`stops_of_descend`, `runsInto_or_refuses_of_run` — what the error of a walk says.
-/

set_option autoImplicit false

namespace FusedKernel

open Relation

variable {mode : Walk.Mode} {g : ExprGraph}

/-! ## Order below a node -/

namespace ExprGraph

/-- A walk from `root` leads to a node, if nothing stops it before. -/
def Meets (g : ExprGraph) (mode : Walk.Mode) (root id : NodeId) : Prop :=
  ReflTransGen (g.Leads mode) root id

/-- Whatever is met from `root` is a node of the graph and does not meet itself again. -/
structure OrderlyBelow (g : ExprGraph) (mode : Walk.Mode) (root : NodeId) : Prop where
  inRange : ∀ id, g.Meets mode root id → id < g.size
  acyclic : ∀ id, g.Meets mode root id → ¬TransGen (g.Leads mode) id id

theorem leads_iff_of_node? {id child : NodeId} {node : Node} (h : g.node? id = some node) :
    g.Leads mode id child ↔
      mode.left? node = some (.node child) ∨ mode.right? node = some (.node child) := by
  constructor
  · rintro ⟨node', h', hchild⟩
    rw [h] at h'
    cases h'
    exact hchild
  · intro hchild
    exact ⟨node, h, hchild⟩

end ExprGraph

/-- What a node leads to stands below it in its tree. -/
theorem Unfolds.exists_of_leads {id child : NodeId} {tree : Unfolding}
    (h : Unfolds mode g (some (.node id)) tree) (hleads : g.Leads mode id child) :
    ∃ below, Unfolds mode g (some (.node child)) below ∧ below.height < tree.height := by
  cases h with
  | @node _ node left right hnode hleft hright =>
    simp only [Unfolding.height]
    rcases (ExprGraph.leads_iff_of_node? hnode).1 hleads with hchild | hchild
    · rw [hchild] at hleft
      exact ⟨left, hleft, by omega⟩
    · rw [hchild] at hright
      exact ⟨right, hright, by omega⟩

theorem Unfolds.exists_of_transGen {id child : NodeId} {tree : Unfolding}
    (h : Unfolds mode g (some (.node id)) tree) (hpath : TransGen (g.Leads mode) id child) :
    ∃ below, Unfolds mode g (some (.node child)) below ∧ below.height < tree.height := by
  induction hpath with
  | single hleads => exact h.exists_of_leads hleads
  | tail _ hleads ih =>
    obtain ⟨mid, hmid, hlt⟩ := ih
    obtain ⟨below, hbelow, hlt'⟩ := hmid.exists_of_leads hleads
    exact ⟨below, hbelow, Nat.lt_trans hlt' hlt⟩

/-- **What unfolds into a tree is in order.**  A node that met itself would stand below itself, in
a tree of smaller height. -/
theorem Unfolds.orderlyBelow {root : NodeId} {tree : Unfolding}
    (h : Unfolds mode g (some (.node root)) tree) : g.OrderlyBelow mode root := by
  have hall : ∀ id, g.Meets mode root id → ∃ below, Unfolds mode g (some (.node id)) below := by
    intro id hmeets
    rcases reflTransGen_iff_eq_or_transGen.1 hmeets with rfl | hpath
    · exact ⟨tree, h⟩
    · obtain ⟨below, hbelow, _⟩ := h.exists_of_transGen hpath
      exact ⟨below, hbelow⟩
  constructor
  · intro id hmeets
    obtain ⟨below, hbelow⟩ := hall id hmeets
    cases hbelow with
    | node hnode _ _ => exact ExprGraph.node?_eq_some_lt hnode
  · intro id hmeets hcycle
    obtain ⟨below, hbelow⟩ := hall id hmeets
    obtain ⟨below', hbelow', hlt⟩ := hbelow.exists_of_transGen hcycle
    rw [hbelow.unique hbelow'] at hlt
    exact Nat.lt_irrefl _ hlt

/-! ## The fault on the way -/

/-- The same error, except that cycles may be named by different nodes. -/
inductive GenerationError.Alike : GenerationError → GenerationError → Prop
  | refl (e : GenerationError) : Alike e e
  | cycle (id id' : NodeId) : Alike (.cycle id) (.cycle id')

namespace ExprGraph

/-- A walk goes on from a node to its left operand at once, and to its right one when everything
on the left has been walked. -/
def Proceeds (g : ExprGraph) (mode : Walk.Mode) (parent child : NodeId) : Prop :=
  ∃ node, g.node? parent = some node ∧
    (mode.left? node = some (.node child) ∨
      (mode.right? node = some (.node child) ∧ ∃ tree, Unfolds mode g (mode.left? node) tree))

/-- A walk from `root` has a fault on its way. -/
inductive RunsInto (g : ExprGraph) (mode : Walk.Mode) (root : NodeId) : GenerationError → Prop
  | missing {id : NodeId} (hpath : ReflTransGen (g.Proceeds mode) root id) (hge : g.size ≤ id) :
      RunsInto g mode root (.nodeOutOfRange id)
  /-- The error may name any node: the walk goes around the cycle until it is deep enough. -/
  | cyclic (turn id : NodeId) (hpath : ReflTransGen (g.Proceeds mode) root turn)
      (hcycle : TransGen (g.Proceeds mode) turn turn) : RunsInto g mode root (.cycle id)

variable {parent child child' root : NodeId} {e e' : GenerationError}

theorem Proceeds.leads (h : g.Proceeds mode parent child) : g.Leads mode parent child := by
  obtain ⟨node, hnode, hleft | ⟨hright, _⟩⟩ := h
  · exact ⟨node, hnode, Or.inl hleft⟩
  · exact ⟨node, hnode, Or.inr hright⟩

theorem Proceeds.lt_size (h : g.Proceeds mode parent child) : parent < g.size := by
  obtain ⟨node, hnode, _⟩ := h
  exact node?_eq_some_lt hnode

theorem meets_of_proceeds {id : NodeId} (h : ReflTransGen (g.Proceeds mode) root id) :
    g.Meets mode root id :=
  ReflTransGen.mono (fun _ _ => Proceeds.leads) _ _ h

theorem cycle_of_proceeds {id : NodeId} (h : TransGen (g.Proceeds mode) id id) :
    TransGen (g.Leads mode) id id :=
  TransGen.mono (fun _ _ => Proceeds.leads) _ _ h

/-- If a walk goes on to both operands of a node, it has been through the first one. -/
theorem Proceeds.eq_or_unfolds (h : g.Proceeds mode parent child)
    (h' : g.Proceeds mode parent child') :
    child = child' ∨ (∃ tree, Unfolds mode g (some (.node child)) tree) ∨
      ∃ tree, Unfolds mode g (some (.node child')) tree := by
  obtain ⟨node, hnode, hchild⟩ := h
  obtain ⟨node', hnode', hchild'⟩ := h'
  rw [hnode] at hnode'
  cases hnode'
  rcases hchild with hleft | ⟨hright, hbefore⟩
  · rcases hchild' with hleft' | ⟨hright', hbefore'⟩
    · rw [hleft] at hleft'
      cases hleft'
      exact Or.inl rfl
    · rw [hleft] at hbefore'
      exact Or.inr (Or.inl hbefore')
  · rcases hchild' with hleft' | ⟨hright', hbefore'⟩
    · rw [hleft'] at hbefore
      exact Or.inr (Or.inr hbefore)
    · rw [hright] at hright'
      cases hright'
      exact Or.inl rfl

theorem RunsInto.not_orderlyBelow (h : g.RunsInto mode root e) : ¬g.OrderlyBelow mode root := by
  intro horder
  cases h with
  | missing hpath hge => exact Nat.not_lt.2 hge (horder.inRange _ (meets_of_proceeds hpath))
  | cyclic turn _ hpath hcycle =>
    exact horder.acyclic turn (meets_of_proceeds hpath) (cycle_of_proceeds hcycle)

theorem RunsInto.not_unfolds (h : g.RunsInto mode root e) :
    ¬∃ tree, Unfolds mode g (some (.node root)) tree := by
  rintro ⟨tree, htree⟩
  exact h.not_orderlyBelow htree.orderlyBelow

/-- A walk that comes to a fault has it at its root, or goes on to it. -/
theorem RunsInto.at_root_or_below (h : g.RunsInto mode root e) :
    (g.size ≤ root ∧ e = .nodeOutOfRange root) ∨
      ∃ child, g.Proceeds mode root child ∧ g.RunsInto mode child e := by
  cases h with
  | missing hpath hge =>
    rcases hpath.cases_head with rfl | ⟨child, hchild, hrest⟩
    · exact Or.inl ⟨hge, rfl⟩
    · exact Or.inr ⟨child, hchild, .missing hrest hge⟩
  | cyclic turn id hpath hcycle =>
    right
    rcases hpath.cases_head with rfl | ⟨child, hchild, hrest⟩
    · obtain ⟨child, hchild, hback⟩ := TransGen.head'_iff.1 hcycle
      exact ⟨child, hchild, .cyclic root id hback hcycle⟩
    · exact ⟨child, hchild, .cyclic turn id hrest hcycle⟩

/-- A missing node is the only fault on the way to it. -/
theorem RunsInto.eq_of_missing {id : NodeId} (h : g.RunsInto mode root (.nodeOutOfRange id))
    (h' : g.RunsInto mode root e) : e = .nodeOutOfRange id := by
  cases h with
  | missing hpath hge =>
    induction hpath using ReflTransGen.head_induction_on with
    | refl =>
      rcases h'.at_root_or_below with ⟨_, he⟩ | ⟨child, hchild, _⟩
      · exact he
      · exact absurd hchild.lt_size (Nat.not_lt.2 hge)
    | head hchild hrest ih =>
      rcases h'.at_root_or_below with ⟨hge', _⟩ | ⟨child', hchild', hbelow⟩
      · exact absurd hchild.lt_size (Nat.not_lt.2 hge')
      · rcases hchild.eq_or_unfolds hchild' with rfl | htree | htree
        · exact ih hbelow
        · exact absurd htree (RunsInto.missing hrest hge).not_unfolds
        · exact absurd htree hbelow.not_unfolds

/-- **There is only one fault on the way of a walk.** -/
theorem RunsInto.alike (h : g.RunsInto mode root e) (h' : g.RunsInto mode root e') :
    e.Alike e' := by
  cases h with
  | missing hpath hge =>
    rw [(RunsInto.missing hpath hge).eq_of_missing h']
    exact .refl _
  | cyclic turn id hpath hcycle =>
    cases h' with
    | missing hpath' hge' =>
      have hother := (RunsInto.missing hpath' hge').eq_of_missing (.cyclic turn id hpath hcycle)
      cases hother
    | cyclic => exact .cycle _ _

end ExprGraph

/-! ## The error of a walk -/

/-- A hook that a walk calls at a node fails. -/
inductive Visitor.Refuses {σ : Type} (visitor : Visitor σ) (mode : Walk.Mode) (id : NodeId)
    (node : Node) : GenerationError → Prop
  | enter {s s' : σ} {e : GenerationError} (h : visitor.enter id node s = .error e s') :
      Refuses visitor mode id node e
  | left {leaf : Leaf} {s s' : σ} {e : GenerationError}
      (hleaf : mode.left? node = some (.leaf leaf))
      (h : visitor.visit .left id node s = .error e s') : Refuses visitor mode id node e
  | self {s s' : σ} {e : GenerationError} (h : visitor.visit .self id node s = .error e s') :
      Refuses visitor mode id node e
  | right {leaf : Leaf} {s s' : σ} {e : GenerationError}
      (hleaf : mode.right? node = some (.leaf leaf))
      (h : visitor.visit .right id node s = .error e s') : Refuses visitor mode id node e
  | leave {s s' : σ} {e : GenerationError} (h : visitor.leave id node s = .error e s') :
      Refuses visitor mode id node e

namespace Walk

variable {σ : Type} {visitor : Visitor σ}

/-- Everything that can stop a descent from `root`. -/
inductive Stops (mode : Mode) (g : ExprGraph) (visitor : Visitor σ) (levels : Nat)
    (root : NodeId) : GenerationError → Prop
  | missing {id : NodeId} (hpath : ReflTransGen (g.Proceeds mode) root id) (hge : g.size ≤ id) :
      Stops mode g visitor levels root (.nodeOutOfRange id)
  /-- All levels have been used up by the nodes of a trail. -/
  | tooDeep (trail : List NodeId) (id : NodeId)
      (hchain : (trail ++ [id]).IsChain (g.Proceeds mode))
      (hroot : (trail ++ [id]).head? = some root) (hlength : trail.length = levels) :
      Stops mode g visitor levels root (.cycle id)
  | refused {id : NodeId} {node : Node} {e : GenerationError}
      (hpath : ReflTransGen (g.Proceeds mode) root id) (hnode : g.node? id = some node)
      (hrefuses : visitor.Refuses mode id node e) : Stops mode g visitor levels root e

/-- What stops the descent from a child stops the one from its parent. -/
theorem Stops.above {levels : Nat} {parent child : NodeId} {e : GenerationError}
    (hparent : g.Proceeds mode parent child) (h : Stops mode g visitor levels child e) :
    Stops mode g visitor (levels + 1) parent e := by
  cases h with
  | missing hpath hge => exact .missing (.head hparent hpath) hge
  | tooDeep trail id hchain hroot hlength =>
    refine .tooDeep (parent :: trail) id ?_ rfl (by simp [hlength])
    refine hchain.cons fun next hnext => ?_
    rw [hroot] at hnext
    cases hnext
    exact hparent
  | refused hpath hnode hrefuses => exact .refused (.head hparent hpath) hnode hrefuses

theorem bind_eq_error_iff {α β : Type} {action : WalkM σ α} {next : α → WalkM σ β} {s s' : σ}
    {e : GenerationError} : (action >>= next) s = .error e s' ↔
      action s = .error e s' ∨ ∃ a mid, action s = .ok a mid ∧ next a mid = .error e s' := by
  show EStateM.bind action next s = .error e s' ↔ _
  unfold EStateM.bind
  cases action s with
  | ok a mid => simp
  | error e' mid => simp

theorem follow_eq_error_iff {walk : NodeId → WalkM σ Unit} {side : Side} {id : NodeId}
    {node : Node} {operand : Option Operand} {s s' : σ} {e : GenerationError} :
    follow visitor walk side id node operand s = .error e s' ↔
      (∃ leaf, operand = some (.leaf leaf) ∧ visitor.visit side id node s = .error e s') ∨
        ∃ child, operand = some (.node child) ∧ walk child s = .error e s' := by
  rcases operand with _ | leaf | child
  · simp [follow, pure, EStateM.pure]
  · simp [follow]
  · simp [follow]

/-- A descent that has been through an operand had a tree to walk, and levels enough for it. -/
theorem exists_unfolds_of_follow {levels : Nat} {side : Side} {id : NodeId} {node : Node}
    {operand : Option Operand} {s s' : σ}
    (h : follow visitor (descend mode g visitor levels) side id node operand s = .ok () s') :
    ∃ tree, Unfolds mode g operand tree ∧ tree.height ≤ levels := by
  rcases operand with _ | _ | child
  · exact ⟨.empty, .none, Nat.zero_le _⟩
  · exact ⟨.empty, .leaf _, Nat.zero_le _⟩
  · exact exists_unfolds_of_descend h

/-- **What the error of a descent says.** -/
theorem stops_of_descend {levels : Nat} {id : NodeId} {s s' : σ} {e : GenerationError}
    (h : descend mode g visitor levels id s = .error e s') :
    Stops mode g visitor levels id e := by
  induction levels generalizing id s s' with
  | zero =>
    cases h
    exact .tooDeep [] id (List.isChain_singleton id) rfl rfl
  | succ levels ih =>
    cases hnode : g.node? id with
    | none =>
      rw [descend_outOfRange mode visitor levels hnode] at h
      cases h
      exact .missing .refl (Array.getElem?_eq_none_iff.1 hnode)
    | some node =>
      -- The first action that fails is a hook, or the descent from an operand.
      rw [descend_node mode visitor levels hnode] at h
      rcases bind_eq_error_iff.1 h with henter | ⟨_, _, _, h⟩
      · exact .refused .refl hnode (.enter henter)
      rcases bind_eq_error_iff.1 h with hleft | ⟨_, _, hleft, h⟩
      · rcases follow_eq_error_iff.1 hleft with ⟨leaf, hleaf, hvisit⟩ | ⟨child, hchild, hbelow⟩
        · exact .refused .refl hnode (.left hleaf hvisit)
        · exact (ih hbelow).above ⟨node, hnode, Or.inl hchild⟩
      rcases bind_eq_error_iff.1 h with hself | ⟨_, _, _, h⟩
      · exact .refused .refl hnode (.self hself)
      rcases bind_eq_error_iff.1 h with hright | ⟨_, _, _, hleave⟩
      · rcases follow_eq_error_iff.1 hright with ⟨leaf, hleaf, hvisit⟩ | ⟨child, hchild, hbelow⟩
        · exact .refused .refl hnode (.right hleaf hvisit)
        · obtain ⟨tree, htree, _⟩ := exists_unfolds_of_follow hleft
          exact (ih hbelow).above ⟨node, hnode, Or.inr ⟨hchild, tree, htree⟩⟩
      · exact .refused .refl hnode (.leave hleave)

end Walk

/-- A path with more nodes than there are numbers comes to one of them twice. -/
theorem exists_transGen_of_length {r : NodeId → NodeId → Prop} {n : Nat} {trail : List NodeId}
    (hchain : trail.IsChain r) (hrange : ∀ id ∈ trail, id < n) (hlength : n < trail.length) :
    ∃ id ∈ trail, TransGen r id id := by
  refine Classical.byContradiction fun hacyclic => ?_
  have hpaths : trail.Pairwise (TransGen r) :=
    (hchain.imp fun _ _ h => TransGen.single h).pairwise
  have hnodup : trail.Nodup := by
    refine hpaths.imp_of_mem ?_
    rintro id id' hmem _ hpath rfl
    exact hacyclic ⟨id, hmem, hpath⟩
  have hsubset : trail ⊆ List.range n := fun id hmem => List.mem_range.2 (hrange id hmem)
  have hle := (List.subperm_of_subset hnodup hsubset).length_le
  rw [List.length_range] at hle
  exact Nat.not_lt.2 hle hlength

theorem reflTransGen_of_trail {r : NodeId → NodeId → Prop} {trail : List NodeId} {root id : NodeId}
    (hchain : trail.IsChain r) (hroot : trail.head? = some root) (hmem : id ∈ trail) :
    ReflTransGen r root id := by
  refine hchain.induction (ReflTransGen r root) _ (fun _ _ hstep hpath => hpath.tail hstep) ?_
    id hmem
  intro hne
  rw [List.head?_eq_some_head hne] at hroot
  cases hroot
  exact .refl

/-- A trail of steps that start below `n`, and are more than `n`, turns around somewhere. -/
theorem exists_turn_of_trail {r : NodeId → NodeId → Prop} {n : Nat} {trail : List NodeId}
    {root last : NodeId} (hrange : ∀ id child, r id child → id < n)
    (hchain : (trail ++ [last]).IsChain r) (hroot : (trail ++ [last]).head? = some root)
    (hlength : n < trail.length) :
    ∃ turn, ReflTransGen r root turn ∧ TransGen r turn turn ∧ ReflTransGen r turn last := by
  have hpaths := (hchain.imp fun _ _ hstep => TransGen.single hstep).pairwise
  have hlast : ∀ id ∈ trail, TransGen r id last := fun id hmem =>
    (List.pairwise_append.1 hpaths).2.2 id hmem last (List.mem_singleton_self last)
  have hbelow : ∀ id ∈ trail, id < n := by
    intro id hmem
    obtain ⟨child, hchild, _⟩ := TransGen.head'_iff.1 (hlast id hmem)
    exact hrange id child hchild
  obtain ⟨turn, hturn, hcycle⟩ :=
    exists_transGen_of_length (List.isChain_append.1 hchain).1 hbelow hlength
  exact ⟨turn, reflTransGen_of_trail hchain hroot (List.mem_append_left _ hturn), hcycle,
    (hlast turn hturn).to_reflTransGen⟩

namespace Walk

variable {σ : Type} {visitor : Visitor σ}

/-- **What the error of a walk says.**  As there are more levels than nodes, a descent that has
used up all of them has come to some node twice. -/
theorem runsInto_or_refuses_of_run {root : NodeId} {s s' : σ} {e : GenerationError}
    (h : run mode g visitor root s = .error e s') :
    g.RunsInto mode root e ∨ ∃ id node, ReflTransGen (g.Proceeds mode) root id ∧
      g.node? id = some node ∧ visitor.Refuses mode id node e := by
  cases stops_of_descend h with
  | missing hpath hge => exact Or.inl (.missing hpath hge)
  | refused hpath hnode hrefuses => exact Or.inr ⟨_, _, hpath, hnode, hrefuses⟩
  | tooDeep trail id hchain hroot hlength =>
    obtain ⟨turn, hpath, hcycle, _⟩ :=
      exists_turn_of_trail (fun _ _ hstep => hstep.lt_size) hchain hroot
        (by omega : g.size < trail.length)
    exact Or.inl (.cyclic turn id hpath hcycle)

end Walk

end FusedKernel
