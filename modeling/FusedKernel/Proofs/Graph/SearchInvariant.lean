import FusedKernel.Graph.Search
import FusedKernel.Proofs.Graph.Paths
import Mathlib.Data.List.Chain

/-!
# What holds throughout the search for cycles

The stack of the search is a path: each node on it is an operand, already followed, of the node
below.  So an operand that is active closes a cycle.  Below the finished nodes everything has
been explored: their operands are in range and finished too, and none of them uses itself.

* `Search.Advanced` — an operand of a stacked node that the search has gone past.
* `Search.Settled` — what has been gone past is finished, or is the node stacked next.
* `Search.Invariant` — all that holds between two steps.
* `Search.Outcome` — everything a step can do.

Principal results: `step_outcome` and `Outcome.sound` — a step keeps the invariant, or its
error is justified; `Outcome.progress` — marks only move forward.
-/

set_option autoImplicit false

namespace FusedKernel

open Relation

/-- How often a mark has been changed. -/
def Mark.rank : Mark → Nat
  | unseen => 0
  | active => 1
  | finished => 2

namespace Search

variable {g : ExprGraph}

/-! ## Operands behind the current stage -/

/-- The search has gone past an operand of a stacked node, and the operand is the child. -/
def Advanced (g : ExprGraph) (entry : Fin g.size × Stage) (child : NodeId) : Prop :=
  ∃ stage : Stage, entry.2.remaining < stage.remaining ∧
    (g.get entry.1).child? stage = some child

theorem uses_iff_child? {node : Node} {child : NodeId} :
    node.Uses child ↔ ∃ stage, node.child? stage = some child := by
  obtain ⟨operation, left, right⟩ := node
  constructor
  · rintro (hleft | hright)
    · exact ⟨.followLeft, by simp_all [Node.child?]⟩
    · exact ⟨.followRight, by simp_all [Node.child?]⟩
  · rintro ⟨stage, hchild⟩
    cases stage with
    | followLeft =>
      refine Or.inl ?_
      cases left <;> simp_all [Node.child?]
    | followRight =>
      refine Or.inr ?_
      rcases right with _ | _ | _ <;> simp_all [Node.child?]
    | leave => simp [Node.child?] at hchild

theorem uses_of_child? {current : Fin g.size} {stage : Stage} {child : NodeId}
    (h : (g.get current).child? stage = some child) : g.Uses current child :=
  (ExprGraph.uses_iff_of_node? (g.node?_eq_get current)).2 (uses_iff_child?.2 ⟨stage, h⟩)

theorem Advanced.uses {entry : Fin g.size × Stage} {child : NodeId}
    (h : Advanced g entry child) : g.Uses entry.1 child := by
  obtain ⟨stage, _, hchild⟩ := h
  exact uses_of_child? hchild

theorem not_advanced_followLeft {current : Fin g.size} {child : NodeId} :
    ¬Advanced g (current, .followLeft) child := by
  rintro ⟨stage, hlt, _⟩
  cases stage <;> simp [Stage.remaining] at hlt

/-- A node about to be left has no operand ahead of it. -/
theorem advanced_leave_iff {current : Fin g.size} {child : NodeId} :
    Advanced g (current, .leave) child ↔ g.Uses current child := by
  constructor
  · exact Advanced.uses
  · intro huses
    rw [ExprGraph.uses_iff_of_node? (g.node?_eq_get current), uses_iff_child?] at huses
    obtain ⟨stage, hchild⟩ := huses
    refine ⟨stage, ?_, hchild⟩
    cases stage with
    | followLeft => simp [Stage.remaining]
    | followRight => simp [Stage.remaining]
    | leave => simp [Node.child?] at hchild

theorem advanced_next_iff {current : Fin g.size} {stage : Stage} {child : NodeId}
    (h : stage ≠ .leave) :
    Advanced g (current, stage.next) child ↔
      Advanced g (current, stage) child ∨ (g.get current).child? stage = some child := by
  constructor
  · rintro ⟨stage', hlt, hchild⟩
    by_cases hstage : stage' = stage
    · subst hstage
      exact Or.inr hchild
    · refine Or.inl ⟨stage', ?_, hchild⟩
      cases stage <;> cases stage' <;> simp_all [Stage.next, Stage.remaining]
  · rintro (⟨stage', hlt, hchild⟩ | hchild)
    · have := Stage.remaining_next h
      exact ⟨stage', by simp only at hlt ⊢; omega, hchild⟩
    · have := Stage.remaining_next h
      exact ⟨stage, by simp only; omega, hchild⟩

/-! ## The invariant -/

/-- What the search has gone past at the stacked nodes is finished, but for the nodes stacked
directly above; `above` is the node to be stacked on top. -/
def Settled (g : ExprGraph) (marks : Vector Mark g.size) :
    Option NodeId → List (Fin g.size × Stage) → Prop
  | _, [] => True
  | above, entry :: rest =>
    (∀ child, Advanced g entry child → marks[child]? = some .finished ∨ above = some child) ∧
      Settled g marks (some entry.1.val) rest

/-- What holds of the search when `above` is about to be put on the stack, or nothing. -/
structure Invariant (g : ExprGraph) (above : Option NodeId) (search : Search g.size) : Prop where
  nodup : (search.stack.map (·.1)).Nodup
  active_iff : ∀ v : Fin g.size, search.mark v = .active ↔ v ∈ search.stack.map (·.1)
  linked : search.stack.IsChain fun upper lower => Advanced g lower upper.1
  settled : Settled g search.marks above search.stack
  finished_uses : ∀ {id child : NodeId}, search.marks[id]? = some .finished →
    g.Uses id child → search.marks[child]? = some .finished
  finished_acyclic : ∀ {id : NodeId}, search.marks[id]? = some .finished →
    ¬TransGen g.Uses id id

/-- What a part of the search may come to: a state with the invariant, or a justified error. -/
def Sound (g : ExprGraph) : Except GenerationError (Search g.size) → Prop
  | .ok search => Invariant g none search
  | .error e => g.Fault e

theorem Settled.of_finished {marks marks' : Vector Mark g.size} {above : Option NodeId}
    {stack : List (Fin g.size × Stage)}
    (hmarks : ∀ id : NodeId, marks[id]? = some .finished → marks'[id]? = some .finished)
    (h : Settled g marks above stack) : Settled g marks' above stack := by
  induction stack generalizing above with
  | nil => trivial
  | cons entry rest ih =>
    refine ⟨?_, ih h.2⟩
    intro child hadv
    exact (h.1 child hadv).imp (hmarks child) id

/-- A node that has just been finished need not be named any more. -/
theorem Settled.discharge {marks : Vector Mark g.size} {id : NodeId}
    {stack : List (Fin g.size × Stage)} (hid : marks[id]? = some .finished)
    (h : Settled g marks (some id) stack) : Settled g marks none stack := by
  cases stack with
  | nil => trivial
  | cons entry rest =>
    refine ⟨?_, h.2⟩
    intro child hadv
    left
    rcases h.1 child hadv with hfin | heq
    · exact hfin
    · cases heq
      exact hid

/-- Every stacked node uses the top of the stack, directly or through others. -/
theorem reaches_top {top : Fin g.size × Stage} {rest : List (Fin g.size × Stage)}
    (h : (top :: rest).IsChain fun upper lower => Advanced g lower upper.1) :
    ∀ entry ∈ top :: rest, ReflTransGen g.Uses entry.1 top.1 := by
  induction rest generalizing top with
  | nil =>
    intro entry hmem
    rw [List.mem_singleton.1 hmem]
  | cons lower rest ih =>
    rw [List.isChain_cons_cons] at h
    intro entry hmem
    rcases List.mem_cons.1 hmem with rfl | hmem
    · exact .refl
    · exact (ih h.2 entry hmem).tail h.1.uses

/-- Everything below a finished node is finished. -/
theorem Invariant.finished_of_transGen {above : Option NodeId} {search : Search g.size}
    (inv : Invariant g above search) {id child : NodeId}
    (hid : search.marks[id]? = some .finished) (h : TransGen g.Uses id child) :
    search.marks[child]? = some .finished := by
  induction h with
  | single huses => exact inv.finished_uses hid huses
  | tail _ huses ih => exact inv.finished_uses ih huses

/-! ## One step -/

/-- Everything a step can do at the top of the stack. -/
inductive Outcome (search : Search g.size) (current : Fin g.size) (stage : Stage)
    (rest : List (Fin g.size × Stage)) : Except GenerationError (Search g.size) → Prop
  | left (hstage : stage = .leave) :
      Outcome search current stage rest (.ok (search.finish current rest))
  /-- The stage leads nowhere, or to a finished node. -/
  | passed (hstage : stage ≠ .leave)
      (hchild : ∀ child, (g.get current).child? stage = some child →
        search.marks[child]? = some .finished) :
      Outcome search current stage rest (.ok ⟨search.marks, (current, stage.next) :: rest⟩)
  | entered (child : Fin g.size) (hstage : stage ≠ .leave)
      (hchild : (g.get current).child? stage = some child.val)
      (hmark : search.mark child = .unseen) :
      Outcome search current stage rest
        (.ok (enter ⟨search.marks, (current, stage.next) :: rest⟩ child))
  | cyclic (child : Fin g.size) (hchild : (g.get current).child? stage = some child.val)
      (hmark : search.mark child = .active) :
      Outcome search current stage rest (.error (.cycle child))
  | missing (child : NodeId) (hchild : (g.get current).child? stage = some child)
      (hge : g.size ≤ child) :
      Outcome search current stage rest (.error (.nodeOutOfRange child))

theorem getElem?_marks {n : Nat} (search : Search n) (v : Fin n) :
    search.marks[v.val]? = some (search.mark v) :=
  Vector.getElem?_eq_getElem v.isLt

theorem step_outcome {search : Search g.size} {current : Fin g.size} {stage : Stage}
    {rest : List (Fin g.size × Stage)} (h : search.stack = (current, stage) :: rest) :
    Outcome search current stage rest (step g search) := by
  obtain ⟨marks, stack⟩ := search
  simp only at h
  subst h
  unfold step
  simp only
  split
  · exact .left ‹_›
  · rename_i hstage
    split
    · rename_i hnone
      apply Outcome.passed hstage
      intro child hchild
      rw [hnone] at hchild
      cases hchild
    · rename_i child hchild
      unfold follow
      split
      · rename_i hlt
        split
        · rename_i hmark
          exact .entered ⟨child, hlt⟩ hstage hchild hmark
        · rename_i hmark
          exact .cyclic ⟨child, hlt⟩ hchild hmark
        · rename_i hmark
          apply Outcome.passed hstage
          intro child' hchild'
          rw [hchild] at hchild'
          cases hchild'
          exact (getElem?_marks _ ⟨child, hlt⟩).trans (congrArg some hmark)
      · rename_i hge
        exact .missing child hchild (Nat.le_of_not_lt hge)

theorem get_set {n : Nat} (marks : Vector Mark n) (u v : Fin n) (mark : Mark) :
    (marks.set u mark u.isLt).get v = if v = u then mark else marks.get v := by
  show (marks.set u mark u.isLt)[v.val] = if v = u then mark else marks[v.val]
  rw [Vector.getElem_set]
  by_cases heq : v = u
  · rw [heq, if_pos rfl, if_pos rfl]
  · have hne : u.val ≠ v.val := fun h => heq (Fin.ext h.symm)
    rw [if_neg hne, if_neg heq]

theorem mark_enter {n : Nat} (search : Search n) (child v : Fin n) :
    (search.enter child).mark v = if v = child then .active else search.mark v :=
  get_set search.marks child v .active

theorem mark_finish {n : Nat} (search : Search n) (current v : Fin n)
    (rest : List (Fin n × Stage)) :
    (search.finish current rest).mark v = if v = current then .finished else search.mark v :=
  get_set search.marks current v .finished

/-- Entering a node finishes none. -/
theorem marks_enter_iff {n : Nat} {search : Search n} {child : Fin n} {id : NodeId}
    (h : search.mark child = .unseen) :
    (search.enter child).marks[id]? = some .finished ↔ search.marks[id]? = some .finished := by
  unfold enter
  rw [Vector.getElem?_set]
  split
  · rename_i heq
    subst heq
    rw [getElem?_marks, h]
    simp
  · rfl

theorem marks_finish_iff {n : Nat} {search : Search n} {current : Fin n}
    {rest : List (Fin n × Stage)} {id : NodeId} :
    (search.finish current rest).marks[id]? = some .finished ↔
      id = current ∨ search.marks[id]? = some .finished := by
  unfold finish
  rw [Vector.getElem?_set]
  split
  · rename_i heq
    simp [heq]
  · rename_i hne
    simp [Ne.symm hne]

/-- Leaving the top of the stack: all that it uses is finished by now. -/
theorem Invariant.leave {search : Search g.size} {current : Fin g.size}
    {rest : List (Fin g.size × Stage)} (inv : Invariant g none search)
    (hstack : search.stack = (current, .leave) :: rest) :
    Invariant g none (search.finish current rest) := by
  have hsettled := inv.settled
  have hlinked := inv.linked
  have hnodup := inv.nodup
  rw [hstack] at hsettled hlinked hnodup
  obtain ⟨hfresh, hnodup⟩ := List.nodup_cons.1 hnodup
  have hmono : ∀ id : NodeId, search.marks[id]? = some .finished →
      (search.finish current rest).marks[id]? = some .finished := by
    intro id h
    exact marks_finish_iff.2 (Or.inr h)
  have huses : ∀ child, g.Uses current child → search.marks[child]? = some .finished := by
    intro child h
    rcases hsettled.1 child (advanced_leave_iff.2 h) with hfin | hnone
    · exact hfin
    · cases hnone
  have hactive : search.mark current = .active := by
    rw [inv.active_iff, hstack]
    exact List.mem_cons_self ..
  refine ⟨hnodup, ?_, hlinked.tail, ?_, ?_, ?_⟩
  · intro v
    have hv := inv.active_iff v
    rw [hstack, List.map_cons, List.mem_cons] at hv
    rw [mark_finish]
    split
    · rename_i heq
      subst heq
      exact iff_of_false (by decide) hfresh
    · rename_i hne
      rw [hv, or_iff_right hne]
      rfl
  · exact (hsettled.2.of_finished hmono).discharge (marks_finish_iff.2 (Or.inl rfl))
  · intro id child hid h
    rcases marks_finish_iff.1 hid with rfl | hid
    · exact hmono child (huses child h)
    · exact hmono child (inv.finished_uses hid h)
  · intro id hid hcycle
    rcases marks_finish_iff.1 hid with rfl | hid
    · -- The cycle goes through an operand, which is finished: so would be the node itself.
      obtain ⟨child, hchild, hback⟩ := TransGen.head'_iff.1 hcycle
      have hfin : search.marks[current.val]? = some .finished := by
        rcases reflTransGen_iff_eq_or_transGen.1 hback with heq | hback
        · exact heq ▸ huses child hchild
        · exact inv.finished_of_transGen (huses child hchild) hback
      rw [getElem?_marks, hactive] at hfin
      cases hfin
    · exact inv.finished_acyclic hid hcycle

/-- Going past an operand of the top of the stack. -/
theorem Invariant.advance {search : Search g.size} {current : Fin g.size} {stage : Stage}
    {rest : List (Fin g.size × Stage)} {above : Option NodeId} (inv : Invariant g none search)
    (hstack : search.stack = (current, stage) :: rest) (hstage : stage ≠ .leave)
    (hchild : ∀ child, (g.get current).child? stage = some child →
      search.marks[child]? = some .finished ∨ above = some child) :
    Invariant g above ⟨search.marks, (current, stage.next) :: rest⟩ := by
  obtain ⟨marks, stack⟩ := search
  simp only at hstack
  subst hstack
  refine ⟨inv.nodup, inv.active_iff, ?_, ⟨?_, inv.settled.2⟩, inv.finished_uses,
    inv.finished_acyclic⟩
  · exact List.isChain_cons.2 ⟨(List.isChain_cons.1 inv.linked).1, inv.linked.tail⟩
  · intro child hadv
    rcases (advanced_next_iff hstage).1 hadv with hadv | hnow
    · rcases inv.settled.1 child hadv with hfin | hnone
      · exact Or.inl hfin
      · cases hnone
    · exact hchild child hnow

/-- Entering a node that the top of the stack has just been seen to use. -/
theorem Invariant.enter {search : Search g.size} {child : Fin g.size}
    (inv : Invariant g (some child.val) search) (hmark : search.mark child = .unseen)
    (hlink : ∀ top ∈ search.stack.head?, Advanced g top child) :
    Invariant g none (search.enter child) := by
  have hfresh : child ∉ search.stack.map (·.1) := by
    intro hmem
    have hactive := (inv.active_iff child).2 hmem
    rw [hmark] at hactive
    cases hactive
  refine ⟨List.nodup_cons.2 ⟨hfresh, inv.nodup⟩, ?_, inv.linked.cons hlink, ⟨?_, ?_⟩, ?_, ?_⟩
  · intro v
    show _ ↔ v ∈ child :: search.stack.map (·.1)
    rw [mark_enter, List.mem_cons, ← inv.active_iff v]
    split
    · rename_i heq
      simp [heq]
    · rename_i hne
      rw [or_iff_right hne]
  · intro next hadv
    exact absurd hadv not_advanced_followLeft
  · apply inv.settled.of_finished
    intro id hid
    exact (marks_enter_iff hmark).2 hid
  · intro id next hid h
    exact (marks_enter_iff hmark).2 (inv.finished_uses ((marks_enter_iff hmark).1 hid) h)
  · intro id hid
    exact inv.finished_acyclic ((marks_enter_iff hmark).1 hid)

/-- **A step keeps the invariant, or its error is justified.** -/
theorem Outcome.sound {search : Search g.size} {current : Fin g.size} {stage : Stage}
    {rest : List (Fin g.size × Stage)} {result : Except GenerationError (Search g.size)}
    (h : Outcome search current stage rest result)
    (hstack : search.stack = (current, stage) :: rest) (inv : Invariant g none search) :
    Sound g result := by
  cases h with
  | left hstage =>
    subst hstage
    exact inv.leave hstack
  | passed hstage hchild =>
    apply inv.advance hstack hstage
    intro child hnow
    exact Or.inl (hchild child hnow)
  | entered child hstage hchild hmark =>
    have inv' : Invariant g (some child.val) ⟨search.marks, (current, stage.next) :: rest⟩ := by
      apply inv.advance hstack hstage
      intro child' hchild'
      right
      rw [← hchild, hchild']
    apply inv'.enter hmark
    intro top htop
    cases htop
    exact (advanced_next_iff hstage).2 (Or.inr hchild)
  | cyclic child hchild hmark =>
    have hmem := (inv.active_iff child).1 hmark
    have hlinked := inv.linked
    rw [hstack] at hmem hlinked
    obtain ⟨entry, hentry, rfl⟩ := List.mem_map.1 hmem
    right
    exact ⟨entry.1, rfl, entry.1.isLt,
      TransGen.tail' (reaches_top hlinked entry hentry) (uses_of_child? hchild)⟩
  | missing child hchild hge =>
    left
    exact ⟨child, rfl, hge, current, uses_of_child? hchild⟩

theorem rank_le_rank_enter {search : Search g.size} {child : Fin g.size}
    (hmark : search.mark child = .unseen) (v : Fin g.size) :
    (search.mark v).rank ≤ ((search.enter child).mark v).rank := by
  rw [mark_enter]
  split
  · rename_i heq
    rw [heq, hmark]
    exact Nat.zero_le _
  · exact Nat.le_refl _

/-- **Marks only move forward.** -/
theorem Outcome.progress {search search' : Search g.size} {current : Fin g.size} {stage : Stage}
    {rest : List (Fin g.size × Stage)} (h : Outcome search current stage rest (.ok search'))
    (v : Fin g.size) : (search.mark v).rank ≤ (search'.mark v).rank := by
  generalize hresult : Except.ok search' = result at h
  cases h with
  | left hstage =>
    cases hresult
    rw [mark_finish]
    split
    · cases search.mark v <;> decide
    · exact Nat.le_refl _
  | passed hstage hchild =>
    cases hresult
    exact Nat.le_refl _
  | entered child hstage hchild hmark =>
    cases hresult
    exact rank_le_rank_enter hmark v
  | cyclic => cases hresult
  | missing => cases hresult

end Search

end FusedKernel
