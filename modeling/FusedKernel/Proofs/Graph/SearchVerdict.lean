import FusedKernel.Proofs.Graph.SearchInvariant

/-!
# The verdict of the search for cycles

The search passes a graph exactly when the operands only use numbers of its nodes and no node
uses itself.  Otherwise it names a missing node that is an operand, or a node on a cycle.

* `exhaust_spec` — emptying the stack keeps the invariant and unmarks nothing.
* `fromEach_spec` — after a start from each listed node, all of them are finished.

Principal results: `check_eq_ok_iff`, `fault_of_check` and `check_verdict`, which joins them.
-/

set_option autoImplicit false

namespace FusedKernel

open Relation

namespace Search

variable {g : ExprGraph}

/-- The search has ended with an empty stack and not moved any mark back, or its error is
justified. -/
def Explored (g : ExprGraph) (before : Search g.size) :
    Except GenerationError (Search g.size) → Prop
  | .ok search => Invariant g none search ∧ search.stack = [] ∧
      ∀ v : Fin g.size, (before.mark v).rank ≤ (search.mark v).rank
  | .error e => g.Fault e

theorem Explored.of_le {before before' : Search g.size}
    {result : Except GenerationError (Search g.size)} (h : Explored g before' result)
    (hle : ∀ v : Fin g.size, (before.mark v).rank ≤ (before'.mark v).rank) :
    Explored g before result := by
  cases result with
  | error e => exact h
  | ok search =>
    refine ⟨h.1, h.2.1, ?_⟩
    intro v
    exact Nat.le_trans (hle v) (h.2.2 v)

theorem exhaust_spec {search : Search g.size} (inv : Invariant g none search) :
    Explored g search (exhaust g search) := by
  fun_induction exhaust g search with
  | case1 search hempty => exact ⟨inv, hempty, fun _ => Nat.le_refl _⟩
  | case2 search hne e hstep =>
    obtain ⟨⟨current, stage⟩, rest, hstack⟩ := List.exists_cons_of_ne_nil hne
    have houtcome := step_outcome hstack
    rw [hstep] at houtcome
    exact houtcome.sound hstack inv
  | case3 search hne search' hstep hlt ih =>
    obtain ⟨⟨current, stage⟩, rest, hstack⟩ := List.exists_cons_of_ne_nil hne
    have houtcome := step_outcome hstack
    rw [hstep] at houtcome
    exact (ih (houtcome.sound hstack inv)).of_le houtcome.progress

/-- With nothing on the stack a node is unseen or finished. -/
theorem Invariant.finished_of_seen {search : Search g.size} (inv : Invariant g none search)
    (hempty : search.stack = []) {v : Fin g.size} (hseen : 0 < (search.mark v).rank) :
    search.mark v = .finished := by
  cases hmark : search.mark v with
  | unseen =>
    rw [hmark] at hseen
    exact absurd hseen (Nat.lt_irrefl 0)
  | active =>
    have hmem := (inv.active_iff v).1 hmark
    rw [hempty] at hmem
    cases hmem
  | finished => rfl

theorem Invariant.initial (g : ExprGraph) : Invariant g none (initial g.size) := by
  have hunseen : ∀ id : NodeId, (Search.initial g.size).marks[id]? ≠ some .finished := by
    intro id
    simp [Search.initial, Vector.getElem?_replicate]
  refine ⟨List.nodup_nil, ?_, List.isChain_nil, trivial, ?_, ?_⟩
  · intro v
    have hmark : (Search.initial g.size).mark v = .unseen := Vector.getElem_replicate v.isLt
    rw [hmark]
    simp [Search.initial]
  · intro id child hid
    exact absurd hid (hunseen id)
  · intro id hid
    exact absurd hid (hunseen id)

/-- A search may start from any unseen node when nothing is on the stack. -/
theorem Invariant.start {search : Search g.size} (inv : Invariant g none search)
    (hempty : search.stack = []) {start : Fin g.size} (hmark : search.mark start = .unseen) :
    Invariant g none (search.enter start) := by
  obtain ⟨marks, stack⟩ := search
  simp only at hempty
  subst hempty
  have inv' : Invariant g (some start.val) ⟨marks, []⟩ :=
    ⟨inv.nodup, inv.active_iff, inv.linked, trivial, inv.finished_uses, inv.finished_acyclic⟩
  apply inv'.enter hmark
  intro top htop
  cases htop

theorem fromEach_spec (starts : List (Fin g.size)) {search : Search g.size}
    (inv : Invariant g none search) (hempty : search.stack = []) :
    Explored g search (fromEach g starts search) ∧
      ∀ search', fromEach g starts search = .ok search' →
        ∀ v ∈ starts, 0 < (search'.mark v).rank := by
  induction starts generalizing search with
  | nil =>
    refine ⟨⟨inv, hempty, fun _ => Nat.le_refl _⟩, ?_⟩
    intro search' _ v hmem
    cases hmem
  | cons start starts ih =>
    unfold fromEach
    split
    · rename_i hmark
      have hexplored := exhaust_spec (inv.start hempty hmark)
      split
      · rename_i e hend
        rw [hend] at hexplored
        refine ⟨hexplored, ?_⟩
        intro search' h
        cases h
      · rename_i mid hend
        rw [hend] at hexplored
        obtain ⟨inv', hempty', hprogress⟩ := hexplored
        obtain ⟨hrest, hseen⟩ := ih inv' hempty'
        have hle : ∀ v : Fin g.size, (search.mark v).rank ≤ (mid.mark v).rank :=
          fun v => Nat.le_trans (rank_le_rank_enter hmark v) (hprogress v)
        refine ⟨hrest.of_le hle, ?_⟩
        intro search' h v hmem
        rcases List.mem_cons.1 hmem with rfl | hmem
        · rw [h] at hrest
          have hactive : ((search.enter v).mark v).rank = 1 := by simp [mark_enter, Mark.rank]
          have := hprogress v
          have := hrest.2.2 v
          omega
        · exact hseen search' h v hmem
    · rename_i hmark
      obtain ⟨hrest, hseen⟩ := ih inv hempty
      refine ⟨hrest, ?_⟩
      intro search' h v hmem
      rcases List.mem_cons.1 hmem with rfl | hmem
      · rw [h] at hrest
        have hpos : 0 < (search.mark v).rank := by
          cases hv : search.mark v with
          | unseen => exact absurd hv hmark
          | active => decide
          | finished => decide
        exact Nat.lt_of_lt_of_le hpos (hrest.2.2 v)
      · exact hseen search' h v hmem

end Search

namespace ExprGraph

variable {g : ExprGraph}

theorem fault_of_check {e : GenerationError} (h : g.check = .error e) : g.Fault e := by
  have hexplored :=
    (Search.fromEach_spec (List.finRange g.size) (Search.Invariant.initial g) rfl).1
  unfold check at h
  split at h
  · rename_i e' hsearch
    cases h
    rw [hsearch] at hexplored
    exact hexplored
  · cases h

theorem closed_and_acyclic_of_check (h : g.check = .ok ()) : g.Closed ∧ g.Acyclic := by
  obtain ⟨hexplored, hseen⟩ :=
    Search.fromEach_spec (List.finRange g.size) (Search.Invariant.initial g) rfl
  unfold check at h
  split at h
  · cases h
  rename_i search hsearch
  rw [hsearch] at hexplored
  obtain ⟨inv, hempty, _⟩ := hexplored
  have hfinished : ∀ id < g.size, search.marks[id]? = some .finished := by
    intro id hlt
    rw [Search.getElem?_marks search ⟨id, hlt⟩]
    exact congrArg some (inv.finished_of_seen hempty
      (hseen search hsearch ⟨id, hlt⟩ (List.mem_finRange _)))
  constructor
  · intro parent child huses
    have hchild := inv.finished_uses (hfinished parent huses.lt_size) huses
    exact (Vector.getElem?_eq_some_iff.1 hchild).1
  · intro id hcycle
    exact inv.finished_acyclic (hfinished id (lt_size_of_transGen hcycle)) hcycle

/-- A graph passes exactly when it is in order. -/
theorem check_eq_ok_iff : g.check = .ok () ↔ g.Closed ∧ g.Acyclic := by
  constructor
  · exact closed_and_acyclic_of_check
  · intro h
    cases hcheck : g.check with
    | ok => rfl
    | error e => exact absurd h (fault_of_check hcheck).not_closed_or_not_acyclic

/-- **The verdict on a graph.**  The search is a total function that only ever looks at numbers
of nodes; it passes the graphs that are in order, and each of its errors is justified. -/
theorem check_verdict (g : ExprGraph) :
    (g.check = .ok () ↔ g.Closed ∧ g.Acyclic) ∧ ∀ e, g.check = .error e → g.Fault e := by
  refine ⟨check_eq_ok_iff, ?_⟩
  intro e hcheck
  exact fault_of_check hcheck

end ExprGraph

end FusedKernel
