import FusedKernel.Proofs.Graph.SearchVerdict
import FusedKernel.Proofs.Graph.WalkVerdict
import Mathlib.Data.List.Nodup
import Mathlib.Tactic.Choose

/-!
# Orders from the bottom up

A graph can be worked through one node at a time if the nodes are taken in such an order that
operands come before the nodes that use them.  Only graphs in order have one, and each of them
does: the heights of the trees that its nodes unfold into sort the nodes.

* `ExprGraph.BottomUp` — an order of all nodes with operands first.

Principal results: `BottomUp.mem_before_of_transGen` — all that a node uses, directly or through
others, stands before it; `check_eq_ok_iff_exists_bottomUp` — the search for cycles passes exactly
the graphs that can be put into such an order.
-/

set_option autoImplicit false

namespace FusedKernel

open Relation

namespace ExprGraph

variable {g : ExprGraph} {order : List NodeId}

/-- An order of the nodes in which operands come before the nodes that use them. -/
structure BottomUp (g : ExprGraph) (order : List NodeId) : Prop where
  /-- Every node has one place in the order. -/
  perm : order.Perm (List.range g.size)
  operandsFirst : ∀ before id after, order = before ++ id :: after →
    ∀ child, g.Uses id child → child ∈ before

/-! ## Which graphs have such an order -/

theorem BottomUp.mem_iff (h : g.BottomUp order) {id : NodeId} : id ∈ order ↔ id < g.size := by
  rw [h.perm.mem_iff, List.mem_range]

theorem BottomUp.nodup (h : g.BottomUp order) : order.Nodup :=
  h.perm.nodup_iff.2 List.nodup_range

theorem BottomUp.mem_before_of_transGen (h : g.BottomUp order) {before after : List NodeId}
    {id child : NodeId} (hsplit : order = before ++ id :: after)
    (hpath : TransGen g.Uses id child) : child ∈ before := by
  induction hpath with
  | single huses => exact h.operandsFirst before id after hsplit _ huses
  | tail _ huses ih =>
    obtain ⟨start, rest, hmid⟩ := List.append_of_mem ih
    have hchild := h.operandsFirst start _ (rest ++ id :: after) (by simp [hsplit, hmid]) _ huses
    simp [hmid, hchild]

theorem BottomUp.closed (h : g.BottomUp order) : g.Closed := by
  intro parent child huses
  obtain ⟨before, after, hsplit⟩ := List.append_of_mem (h.mem_iff.2 huses.lt_size)
  have hchild := h.operandsFirst before parent after hsplit child huses
  apply h.mem_iff.1
  simp [hsplit, hchild]

theorem BottomUp.acyclic (h : g.BottomUp order) : g.Acyclic := by
  intro id hcycle
  obtain ⟨before, after, hsplit⟩ := List.append_of_mem (h.mem_iff.2 (lt_size_of_transGen hcycle))
  have hbefore := h.mem_before_of_transGen hsplit hcycle
  have hnodup := h.nodup
  rw [hsplit] at hnodup
  exact List.disjoint_of_nodup_append hnodup hbefore (List.mem_cons_self ..)

/-! ## How to find one -/

theorem orderlyBelow_of_acyclic (hclosed : g.Closed) (hacyclic : g.Acyclic) {id : NodeId}
    (hid : id < g.size) : g.OrderlyBelow .full id := by
  constructor
  · intro id' hmeets
    unfold Meets at hmeets
    rw [g.leads_full] at hmeets
    rcases ReflTransGen.cases_tail hmeets with rfl | ⟨parent, _, hparent⟩
    · exact hid
    · exact hclosed parent id' hparent
  · intro id' _
    rw [g.leads_full]
    exact hacyclic id'

/-- In a graph in order nodes have ranks, and operands have smaller ones. -/
theorem exists_rank (hclosed : g.Closed) (hacyclic : g.Acyclic) :
    ∃ rank : NodeId → Nat, ∀ parent child, g.Uses parent child → rank child < rank parent := by
  have htrees : ∀ id, ∃ tree, id < g.size → Unfolds .full g (some (.node id)) tree := by
    intro id
    by_cases hid : id < g.size
    · obtain ⟨tree, htree⟩ := (orderlyBelow_of_acyclic hclosed hacyclic hid).exists_unfolds
      exact ⟨tree, fun _ => htree⟩
    · exact ⟨.empty, fun h => absurd h hid⟩
  choose tree htree using htrees
  refine ⟨fun id => (tree id).height, ?_⟩
  intro parent child huses
  obtain ⟨below, hbelow, hlt⟩ :=
    (htree parent huses.lt_size).exists_of_leads (leads_full_iff.2 huses)
  have hsame : tree child = below := (htree child (hclosed parent child huses)).unique hbelow
  show (tree child).height < (tree parent).height
  rw [hsame]
  exact hlt

theorem exists_sorted (rank : NodeId → Nat) (ids : List NodeId) :
    ∃ sorted : List NodeId, sorted.Perm ids ∧ sorted.Pairwise fun a b => rank a ≤ rank b := by
  let le (a b : NodeId) : Bool := decide (rank a ≤ rank b)
  refine ⟨ids.mergeSort le, List.mergeSort_perm _ le, ?_⟩
  have hpairwise : (ids.mergeSort le).Pairwise fun a b => le a b = true := by
    apply List.pairwise_mergeSort
    · intro a b c hab hbc
      simp only [le, decide_eq_true_eq] at hab hbc ⊢
      omega
    · intro a b
      simp only [le, Bool.or_eq_true, decide_eq_true_eq]
      omega
  simpa only [le, decide_eq_true_eq] using hpairwise

theorem exists_bottomUp (hclosed : g.Closed) (hacyclic : g.Acyclic) :
    ∃ order, g.BottomUp order := by
  obtain ⟨rank, hrank⟩ := exists_rank hclosed hacyclic
  obtain ⟨order, hperm, hsorted⟩ := exists_sorted rank (List.range g.size)
  refine ⟨order, hperm, ?_⟩
  rintro before id after rfl child huses
  have hlt := hrank id child huses
  have hchild : child ∈ before ++ id :: after :=
    hperm.mem_iff.2 (List.mem_range.2 (hclosed id child huses))
  -- Behind the node ranks are at least as high as its own.
  have hbehind := List.pairwise_cons.1 (List.pairwise_append.1 hsorted).2.1
  simp only [List.mem_append, List.mem_cons] at hchild
  rcases hchild with hbefore | rfl | hafter
  · exact hbefore
  · omega
  · have := hbehind.1 child hafter
    omega

/-- **The graphs in order are those with an order from the bottom up.** -/
theorem check_eq_ok_iff_exists_bottomUp : g.check = .ok () ↔ ∃ order, g.BottomUp order := by
  rw [check_eq_ok_iff]
  constructor
  · rintro ⟨hclosed, hacyclic⟩
    exact exists_bottomUp hclosed hacyclic
  · rintro ⟨order, horder⟩
    exact ⟨horder.closed, horder.acyclic⟩

end ExprGraph

end FusedKernel
