import FusedKernel.Proofs.Graph.Paths

/-!
# Unfolding an expression

The nodes a walk comes to form a tree: a shared node stands in it once for each time the walk
comes to it.  Walking the tree needs no count of levels, so facts about a walk that succeeds
are proved by induction on the tree.

* `Unfolding` — a tree of nodes; `Unfolds` — it is what a walk makes of an operand.
* `Unfolding.walk` — the walk of a tree.

Principal results: `descend_eq_walk` — with enough levels for the tree, a descent is the walk of
the tree; `exists_unfolds_of_descend` — a descent that succeeds had enough levels for one.
-/

set_option autoImplicit false

namespace FusedKernel

open Relation

/-- A tree of nodes.  Nothing stands below a side that is a leaf, or is not followed. -/
inductive Unfolding where
  | empty
  | branch (id : NodeId) (node : Node) (left right : Unfolding)

namespace Unfolding

/-- Length of the longest path down a tree. -/
def height : Unfolding → Nat
  | empty => 0
  | branch _ _ left right => max left.height right.height + 1

variable {σ : Type}

/-- Walks a tree. -/
def walk (mode : Walk.Mode) (visitor : Visitor σ) : Unfolding → WalkM σ Unit
  | empty => pure ()
  | branch id node left right => do
    visitor.enter id node
    Walk.follow visitor (fun _ => left.walk mode visitor) .left id node (mode.left? node)
    visitor.visit .self id node
    Walk.follow visitor (fun _ => right.walk mode visitor) .right id node (mode.right? node)
    visitor.leave id node

end Unfolding

/-- A tree holds the nodes a walk comes to when it follows an operand. -/
inductive Unfolds (mode : Walk.Mode) (g : ExprGraph) : Option Operand → Unfolding → Prop
  | none : Unfolds mode g none .empty
  | leaf (leaf : Leaf) : Unfolds mode g (some (.leaf leaf)) .empty
  | node {id : NodeId} {node : Node} {left right : Unfolding} (hnode : g.node? id = some node)
      (hleft : Unfolds mode g (mode.left? node) left)
      (hright : Unfolds mode g (mode.right? node) right) :
      Unfolds mode g (some (.node id)) (.branch id node left right)

/-- There is at most one tree for an operand. -/
theorem Unfolds.unique {mode : Walk.Mode} {g : ExprGraph} {operand : Option Operand}
    {tree tree' : Unfolding} (h : Unfolds mode g operand tree)
    (h' : Unfolds mode g operand tree') : tree = tree' := by
  induction h generalizing tree' with
  | none => cases h'; rfl
  | leaf leaf => cases h'; rfl
  | node hnode _ _ ihleft ihright =>
    cases h' with
    | node hnode' hleft' hright' =>
      rw [hnode] at hnode'
      cases hnode'
      rw [ihleft hleft', ihright hright']

namespace Walk

variable {σ : Type} {mode : Mode} {g : ExprGraph} {visitor : Visitor σ}

theorem bind_eq_ok_iff {α β : Type} {action : WalkM σ α} {next : α → WalkM σ β} {s s' : σ}
    {b : β} : (action >>= next) s = .ok b s' ↔
      ∃ a mid, action s = .ok a mid ∧ next a mid = .ok b s' := by
  show EStateM.bind action next s = .ok b s' ↔ _
  unfold EStateM.bind
  constructor
  · intro h
    cases haction : action s with
    | ok a mid => exact ⟨a, mid, rfl, by rw [haction] at h; exact h⟩
    | error e mid => rw [haction] at h; cases h
  · rintro ⟨a, mid, haction, hnext⟩
    rw [haction]
    exact hnext

/-- A descent that succeeds has done all it does at its node. -/
theorem exists_of_descend {levels : Nat} {id : NodeId} {node : Node} {s s' : σ}
    (hnode : g.node? id = some node)
    (h : descend mode g visitor (levels + 1) id s = .ok () s') :
    ∃ s₁ s₂ s₃ s₄, visitor.enter id node s = .ok () s₁ ∧
      follow visitor (descend mode g visitor levels) .left id node (mode.left? node) s₁ =
        .ok () s₂ ∧
      visitor.visit .self id node s₂ = .ok () s₃ ∧
      follow visitor (descend mode g visitor levels) .right id node (mode.right? node) s₃ =
        .ok () s₄ ∧
      visitor.leave id node s₄ = .ok () s' := by
  rw [descend_node mode visitor levels hnode] at h
  obtain ⟨_, s₁, henter, h⟩ := bind_eq_ok_iff.1 h
  obtain ⟨_, s₂, hleft, h⟩ := bind_eq_ok_iff.1 h
  obtain ⟨_, s₃, hself, h⟩ := bind_eq_ok_iff.1 h
  obtain ⟨_, s₄, hright, hleave⟩ := bind_eq_ok_iff.1 h
  exact ⟨s₁, s₂, s₃, s₄, henter, hleft, hself, hright, hleave⟩

/-- Two ways of walking an operand agree if they agree on the node it refers to. -/
theorem follow_congr {walk walk' : NodeId → WalkM σ Unit} {side : Side} {id : NodeId}
    {node : Node} {operand : Option Operand}
    (h : ∀ child, operand = some (.node child) → walk child = walk' child) :
    follow visitor walk side id node operand = follow visitor walk' side id node operand := by
  rcases operand with _ | _ | child
  · rfl
  · rfl
  · exact h child rfl

theorem descend_eq_walk {tree : Unfolding} {id : NodeId} {levels : Nat}
    (h : Unfolds mode g (some (.node id)) tree) (hheight : tree.height ≤ levels) :
    descend mode g visitor levels id = tree.walk mode visitor := by
  induction tree generalizing id levels with
  | empty => cases h
  | branch id' node left right ihleft ihright =>
    cases h with
    | node hnode hleft hright =>
      obtain ⟨below, rfl⟩ : ∃ below, levels = below + 1 :=
        ⟨levels - 1, by simp only [Unfolding.height] at hheight; omega⟩
      have hbelow : max left.height right.height ≤ below := by
        simp only [Unfolding.height] at hheight
        omega
      rw [descend_node mode visitor below hnode, Unfolding.walk]
      rw [follow_congr fun child hchild =>
        ihleft (hchild ▸ hleft) (Nat.le_trans (Nat.le_max_left _ _) hbelow)]
      rw [follow_congr fun child (hchild : mode.right? node = some (.node child)) =>
        ihright (hchild ▸ hright) (Nat.le_trans (Nat.le_max_right _ _) hbelow)]

theorem exists_unfolds_of_descend {levels : Nat} {id : NodeId} {s s' : σ}
    (h : descend mode g visitor levels id s = .ok () s') :
    ∃ tree, Unfolds mode g (some (.node id)) tree ∧ tree.height ≤ levels := by
  induction levels generalizing id s s' with
  | zero => cases h
  | succ levels ih =>
    cases hnode : g.node? id with
    | none =>
      rw [descend_outOfRange mode visitor levels hnode] at h
      cases h
    | some node =>
      have hside : ∀ {side operand s s'},
          follow visitor (descend mode g visitor levels) side id node operand s = .ok () s' →
          ∃ tree, Unfolds mode g operand tree ∧ tree.height ≤ levels := by
        rintro side (_ | leaf | child) s s' hfollow
        · exact ⟨.empty, .none, Nat.zero_le _⟩
        · exact ⟨.empty, .leaf leaf, Nat.zero_le _⟩
        · exact ih hfollow
      obtain ⟨_, _, _, _, _, hleft, _, hright, _⟩ := exists_of_descend hnode h
      obtain ⟨left, huleft, hhleft⟩ := hside hleft
      obtain ⟨right, huright, hhright⟩ := hside hright
      refine ⟨.branch id node left right, .node hnode huleft huright, ?_⟩
      simp only [Unfolding.height]
      omega

end Walk

end FusedKernel
