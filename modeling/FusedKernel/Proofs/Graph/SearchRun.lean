import FusedKernel.Proofs.Graph.SearchVerdict
import Mathlib.Data.Fintype.Card

/-!
# The course of the search for cycles

The check of a graph runs two loops: one goes through the nodes to start from, the other works off
the stack.  `Run` follows them iteration by iteration and notes which nodes are popped and which are
opened, that is, put on the stack for the first time.  A popped node goes back on the stack with
its next operand, so the height of the stack tells nothing about the time the loops take.  What does
is the number of pops: an opened node has three of them, past or still to come.

* `Loops` — where the two loops stand; `Loops.next` does one iteration.
* `Iteration` — everything an iteration can do.
* `Mark.Moves` — a mark stays, or goes on to the next one.
* `Between` — all that holds between two iterations.
* `Ends` — the loops are over, with this verdict.

Principal results: `Iteration.marks_move`, `Iteration.pops` and `Run.pops_add_pending` (one
iteration, then all of them); `Run.between`, `exists_ends` and `loops_verdict`, which joins them.
-/

set_option autoImplicit false

namespace FusedKernel

/-- A mark stays as it is, or goes on to the next one. -/
inductive Mark.Moves : Mark → Mark → Prop
  | stays (mark : Mark) : Moves mark mark
  | opened : Moves .unseen .active
  | closed : Moves .active .finished

/-- How often a node with this mark has been opened. -/
def Mark.openings : Mark → Nat
  | unseen => 0
  | active | finished => 1

theorem Mark.openings_le (mark : Mark) : mark.openings ≤ 1 := by
  cases mark <;> decide

theorem Stage.remaining_pos (stage : Stage) : 0 < stage.remaining := by
  cases stage <;> decide

namespace Search

/-! ## Iterations -/

/-- Where the two loops stand: the nodes still to start from, and the search. -/
structure Loops (n : Nat) where
  starts : List (Fin n)
  search : Search n

/-- Before the first iteration. -/
def Loops.initial (n : Nat) : Loops n := ⟨List.finRange n, Search.initial n⟩

/-- One iteration: of the inner loop while there is a stack, and otherwise of the outer one. -/
def Loops.next (g : ExprGraph) (loops : Loops g.size) :
    Option (Except GenerationError (Loops g.size)) :=
  match loops.search.stack with
  | _ :: _ =>
    match step g loops.search with
    | .error e => some (.error e)
    | .ok search => some (.ok ⟨loops.starts, search⟩)
  | [] =>
    match loops.starts with
    | [] => none
    | start :: starts =>
      if loops.search.mark start = .unseen then some (.ok ⟨starts, loops.search.enter start⟩)
      else some (.ok ⟨starts, loops.search⟩)

/-- What an iteration does to the stack: the node it pops, and the node it opens. -/
structure Turn (n : Nat) where
  popped : Option (Fin n)
  opened : Option (Fin n)

/-- An iteration pops the top of the stack, and where the stack has grown it has opened a node. -/
def Turn.between {n : Nat} (before after : Search n) : Turn n where
  popped := before.stack.head?.map (·.1)
  opened := if before.stack.length < after.stack.length then after.stack.head?.map (·.1) else none

/-- The nodes popped so far, first to last. -/
def popped {n : Nat} (turns : List (Turn n)) : List (Fin n) := turns.filterMap (·.popped)

/-- The nodes opened so far, first to last. -/
def opened {n : Nat} (turns : List (Turn n)) : List (Fin n) := turns.filterMap (·.opened)

variable {g : ExprGraph}

/-- The turns of the loops from the beginning of a check up to some point. -/
inductive Run (g : ExprGraph) : List (Turn g.size) → Loops g.size → Prop
  | initial : Run g [] (.initial g.size)
  | next {turns : List (Turn g.size)} {loops loops' : Loops g.size} (hrun : Run g turns loops)
      (hnext : loops.next g = some (.ok loops')) :
      Run g (turns ++ [.between loops.search loops'.search]) loops'

/-- Everything an iteration can do. -/
inductive Iteration (g : ExprGraph) : Loops g.size → Turn g.size → Loops g.size → Prop
  | skipped {start : Fin g.size} {starts : List (Fin g.size)} {search : Search g.size}
      (hstack : search.stack = []) (hmark : search.mark start ≠ .unseen) :
      Iteration g ⟨start :: starts, search⟩ ⟨none, none⟩ ⟨starts, search⟩
  | started {start : Fin g.size} {starts : List (Fin g.size)} {search : Search g.size}
      (hstack : search.stack = []) (hmark : search.mark start = .unseen) :
      Iteration g ⟨start :: starts, search⟩ ⟨none, some start⟩ ⟨starts, search.enter start⟩
  | left {starts : List (Fin g.size)} {search : Search g.size} {current : Fin g.size}
      {rest : List (Fin g.size × Stage)} (hstack : search.stack = (current, .leave) :: rest) :
      Iteration g ⟨starts, search⟩ ⟨some current, none⟩ ⟨starts, search.finish current rest⟩
  | passed {starts : List (Fin g.size)} {search : Search g.size} {current : Fin g.size}
      {stage : Stage} {rest : List (Fin g.size × Stage)}
      (hstack : search.stack = (current, stage) :: rest) (hstage : stage ≠ .leave)
      (hchild : ∀ child, (g.get current).child? stage = some child →
        search.marks[child]? = some .finished) :
      Iteration g ⟨starts, search⟩ ⟨some current, none⟩
        ⟨starts, search.marks, (current, stage.next) :: rest⟩
  | entered {starts : List (Fin g.size)} {search : Search g.size} {current child : Fin g.size}
      {stage : Stage} {rest : List (Fin g.size × Stage)}
      (hstack : search.stack = (current, stage) :: rest) (hstage : stage ≠ .leave)
      (hchild : (g.get current).child? stage = some child.val)
      (hmark : search.mark child = .unseen) :
      Iteration g ⟨starts, search⟩ ⟨some current, some child⟩
        ⟨starts, enter ⟨search.marks, (current, stage.next) :: rest⟩ child⟩

theorem Outcome.iteration {search search' : Search g.size} {current : Fin g.size} {stage : Stage}
    {rest : List (Fin g.size × Stage)} (h : Outcome search current stage rest (.ok search'))
    (hstack : search.stack = (current, stage) :: rest) (starts : List (Fin g.size)) :
    Iteration g ⟨starts, search⟩ (.between search search') ⟨starts, search'⟩ := by
  generalize hresult : Except.ok search' = result at h
  cases h with
  | left hstage =>
    cases hresult
    subst hstage
    have hlower : ¬rest.length + 1 < rest.length := by omega
    simpa [Turn.between, hstack, finish, hlower] using Iteration.left hstack
  | passed hstage hchild =>
    cases hresult
    simpa [Turn.between, hstack] using Iteration.passed hstack hstage hchild
  | entered child hstage hchild hmark =>
    cases hresult
    simpa [Turn.between, hstack, enter] using Iteration.entered hstack hstage hchild hmark
  | cyclic => cases hresult
  | missing => cases hresult

theorem Loops.iteration {loops loops' : Loops g.size} (h : loops.next g = some (.ok loops')) :
    Iteration g loops (.between loops.search loops'.search) loops' := by
  obtain ⟨starts, search⟩ := loops
  unfold next at h
  simp only at h
  split at h
  · rename_i top rest hstack
    split at h
    · cases h
    · rename_i search' hstep
      cases h
      have houtcome := step_outcome hstack
      rw [hstep] at houtcome
      exact houtcome.iteration hstack starts
  · rename_i hstack
    split at h
    · cases h
    · rename_i start starts
      split at h
      · rename_i hmark
        cases h
        simpa [Turn.between, hstack, enter] using Iteration.started hstack hmark
      · rename_i hmark
        cases h
        simpa [Turn.between, hstack] using Iteration.skipped hstack hmark

/-! ## Marks -/

theorem Iteration.invariant {loops loops' : Loops g.size} {turn : Turn g.size}
    (h : Iteration g loops turn loops') (inv : Invariant g none loops.search) :
    Invariant g none loops'.search := by
  cases h with
  | skipped => exact inv
  | started hstack hmark => exact inv.start hstack hmark
  | left hstack => exact inv.leave hstack
  | passed hstack hstage hchild => exact (Outcome.passed hstage hchild).sound hstack inv
  | entered hstack hstage hchild hmark =>
    exact (Outcome.entered _ hstage hchild hmark).sound hstack inv

theorem Run.invariant {turns : List (Turn g.size)} {loops : Loops g.size} (h : Run g turns loops) :
    Invariant g none loops.search := by
  induction h with
  | initial => exact Invariant.initial g
  | next _ hnext ih => exact (Loops.iteration hnext).invariant ih

theorem Invariant.mark_top {search : Search g.size} (inv : Invariant g none search)
    {current : Fin g.size} {stage : Stage} {rest : List (Fin g.size × Stage)}
    (hstack : search.stack = (current, stage) :: rest) : search.mark current = .active := by
  rw [inv.active_iff, hstack]
  exact List.mem_cons_self ..

theorem moves_enter {n : Nat} {search : Search n} {child : Fin n}
    (hmark : search.mark child = .unseen) (v : Fin n) :
    (search.mark v).Moves ((search.enter child).mark v) := by
  rw [mark_enter]
  split
  · rename_i heq
    rw [heq, hmark]
    exact .opened
  · exact .stays _

/-- **An iteration moves marks only forward,** and by no more than one. -/
theorem Iteration.marks_move {loops loops' : Loops g.size} {turn : Turn g.size}
    (h : Iteration g loops turn loops') (inv : Invariant g none loops.search) (v : Fin g.size) :
    (loops.search.mark v).Moves (loops'.search.mark v) := by
  cases h with
  | skipped => exact .stays _
  | started _ hmark => exact moves_enter hmark v
  | left hstack =>
    rw [mark_finish]
    split
    · rename_i heq
      rw [heq, inv.mark_top hstack]
      exact .closed
    · exact .stays _
  | passed => exact .stays _
  | entered _ _ _ hmark => exact moves_enter hmark v

/-! ## Openings -/

theorem openings_enter {n : Nat} {search : Search n} {child : Fin n}
    (hmark : search.mark child = .unseen) (v : Fin n) :
    ((search.enter child).mark v).openings = (search.mark v).openings + [child].count v := by
  rw [mark_enter]
  split
  · rename_i heq
    subst heq
    simp [hmark, Mark.openings]
  · rename_i hne
    simp [Ne.symm hne]

/-- An iteration opens the node that it takes from `unseen`. -/
theorem Iteration.openings {loops loops' : Loops g.size} {turn : Turn g.size}
    (h : Iteration g loops turn loops') (inv : Invariant g none loops.search) (v : Fin g.size) :
    (loops'.search.mark v).openings =
      (loops.search.mark v).openings + (opened [turn]).count v := by
  cases h with
  | skipped => rfl
  | started _ hmark => exact openings_enter hmark v
  | left hstack =>
    rw [mark_finish]
    split
    · rename_i heq
      rw [heq, inv.mark_top hstack]
      rfl
    · rfl
  | passed => rfl
  | entered _ _ _ hmark => exact openings_enter hmark v

/-- A node has been opened once if it has been seen, and otherwise never. -/
theorem Run.count_opened {turns : List (Turn g.size)} {loops : Loops g.size}
    (h : Run g turns loops) (v : Fin g.size) :
    (opened turns).count v = (loops.search.mark v).openings := by
  induction h with
  | initial =>
    have hmark : (Search.initial g.size).mark v = .unseen := Vector.getElem_replicate v.isLt
    simp [opened, Loops.initial, hmark, Mark.openings]
  | next hrun hnext ih =>
    rw [(Loops.iteration hnext).openings hrun.invariant v, ← ih]
    simp [opened]

theorem Run.count_opened_le {turns : List (Turn g.size)} {loops : Loops g.size}
    (h : Run g turns loops) (v : Fin g.size) : (opened turns).count v ≤ 1 := by
  rw [h.count_opened v]
  exact Mark.openings_le _

theorem Run.length_opened_le {turns : List (Turn g.size)} {loops : Loops g.size}
    (h : Run g turns loops) : (opened turns).length ≤ g.size := by
  have hnodup : (opened turns).Nodup := List.nodup_iff_count_le_one.2 h.count_opened_le
  simpa using hnodup.length_le_card

/-! ## Pops -/

/-- An iteration makes one of the pending pops, and adds three for a node that it opens. -/
theorem Iteration.pops {loops loops' : Loops g.size} {turn : Turn g.size}
    (h : Iteration g loops turn loops') (p : Fin g.size → Bool) :
    (popped [turn]).countP p + pending (loops'.search.stack.filter (p ·.1)) =
      pending (loops.search.stack.filter (p ·.1)) + 3 * (opened [turn]).countP p := by
  have hnew : Stage.followLeft.remaining = 3 := rfl
  have hlast : Stage.leave.remaining = 1 := rfl
  cases h with
  | skipped => simp [popped, opened]
  | @started start _ _ hstack =>
    by_cases hstart : p start <;> simp [popped, opened, enter, hstack, hstart, pending, hnew]
  | @left _ _ current _ hstack =>
    by_cases hcurrent : p current <;>
      simp [popped, opened, finish, hstack, hcurrent, pending, hlast]
  | @passed _ _ current _ _ hstack hstage =>
    have hremaining := Stage.remaining_next hstage
    by_cases hcurrent : p current
    · simp [popped, opened, hstack, hcurrent, pending]
      omega
    · simp [popped, opened, hstack, hcurrent]
  | @entered _ _ current child _ _ hstack hstage =>
    have hremaining := Stage.remaining_next hstage
    by_cases hcurrent : p current <;> by_cases hchild : p child <;>
      simp [popped, opened, enter, hstack, hcurrent, hchild, pending, hnew] <;> omega

/-- **Each opened node accounts for three pops,** past or still to come. -/
theorem Run.pops_add_pending {turns : List (Turn g.size)} {loops : Loops g.size}
    (h : Run g turns loops) (p : Fin g.size → Bool) :
    (popped turns).countP p + pending (loops.search.stack.filter (p ·.1)) =
      3 * (opened turns).countP p := by
  induction h with
  | initial => rfl
  | @next turns loops loops' hrun hnext ih =>
    have hpops := (Loops.iteration hnext).pops p
    simp only [popped, opened, List.filterMap_append, List.countP_append] at ih hpops ⊢
    omega

theorem Run.count_popped {turns : List (Turn g.size)} {loops : Loops g.size}
    (h : Run g turns loops) (v : Fin g.size) :
    (popped turns).count v + pending (loops.search.stack.filter (·.1 == v)) =
      3 * (loops.search.mark v).openings := by
  rw [← h.count_opened v]
  exact h.pops_add_pending (· == v)

theorem Run.count_popped_le {turns : List (Turn g.size)} {loops : Loops g.size}
    (h : Run g turns loops) (v : Fin g.size) : (popped turns).count v ≤ 3 := by
  have hpopped := h.count_popped v
  have hopenings := (loops.search.mark v).openings_le
  omega

/-- The top of the stack has a pop left. -/
theorem Run.count_popped_lt {turns : List (Turn g.size)} {loops : Loops g.size}
    (h : Run g turns loops) {current : Fin g.size} {stage : Stage}
    {rest : List (Fin g.size × Stage)} (hstack : loops.search.stack = (current, stage) :: rest) :
    (popped turns).count current < 3 := by
  have hpopped := h.count_popped current
  rw [hstack, List.filter_cons_of_pos (by simp), pending] at hpopped
  have hpos := stage.remaining_pos
  have hopenings := (loops.search.mark current).openings_le
  omega

/-- An iteration pops a node, or goes past one to start from. -/
theorem Iteration.length_starts {loops loops' : Loops g.size} {turn : Turn g.size}
    (h : Iteration g loops turn loops') :
    loops'.starts.length + 1 = loops.starts.length + (popped [turn]).length := by
  cases h <;> simp [popped]

theorem Run.length_add_starts {turns : List (Turn g.size)} {loops : Loops g.size}
    (h : Run g turns loops) :
    turns.length + loops.starts.length = (popped turns).length + g.size := by
  induction h with
  | initial => simp [popped, Loops.initial]
  | @next turns loops loops' hrun hnext ih =>
    have hstarts := (Loops.iteration hnext).length_starts
    simp only [popped, List.filterMap_append, List.length_append, List.length_singleton] at *
    omega

/-- **The loops take at most four iterations for each node:** three pops, and one for going past it
as a node to start from. -/
theorem Run.length_le {turns : List (Turn g.size)} {loops : Loops g.size} (h : Run g turns loops) :
    turns.length ≤ 4 * g.size := by
  have hpops := h.pops_add_pending fun _ => true
  simp only [List.countP_true] at hpops
  have hopened := h.length_opened_le
  have hstarts := h.length_add_starts
  omega

/-! ## The end -/

/-- What the loops come to in the end. -/
def Loops.outcome (g : ExprGraph) (loops : Loops g.size) :
    Except GenerationError (Search g.size) :=
  match exhaust g loops.search with
  | .error e => .error e
  | .ok search => fromEach g loops.starts search

/-- The loops are over, with this verdict. -/
inductive Ends (g : ExprGraph) (loops : Loops g.size) : Except GenerationError Unit → Prop
  | passed (hnext : loops.next g = none) : Ends g loops (.ok ())
  | failed {e : GenerationError} (hnext : loops.next g = some (.error e)) : Ends g loops (.error e)

theorem exhaust_of_empty {search : Search g.size} (h : search.stack = []) :
    exhaust g search = .ok search := by
  rw [exhaust, dif_pos h]

theorem exhaust_of_ne {search : Search g.size} (h : search.stack ≠ []) :
    exhaust g search =
      match step g search with
      | .error e => .error e
      | .ok search' => exhaust g search' := by
  rw [exhaust, dif_neg h]
  split
  · rename_i hstep
    simp only [hstep]
  · rename_i hstep
    simp only [hstep]

/-- An iteration does not change what the loops come to. -/
theorem Loops.outcome_eq (loops : Loops g.size) :
    loops.outcome g =
      match loops.next g with
      | none => .ok loops.search
      | some (.error e) => .error e
      | some (.ok loops') => loops'.outcome g := by
  obtain ⟨starts, search⟩ := loops
  unfold next outcome
  cases hstack : search.stack with
  | nil =>
    rw [exhaust_of_empty hstack]
    cases starts with
    | nil => rfl
    | cons start starts =>
      simp only [fromEach]
      split
      · rfl
      · simp only [exhaust_of_empty hstack]
  | cons top rest =>
    have hne : search.stack ≠ [] := by simp [hstack]
    rw [exhaust_of_ne hne]
    cases step g search with
    | error e => rfl
    | ok search' => rfl

theorem Run.outcome_eq {turns : List (Turn g.size)} {loops : Loops g.size} (h : Run g turns loops) :
    loops.outcome g = (Loops.initial g.size).outcome g := by
  induction h with
  | initial => rfl
  | @next turns loops loops' hrun hnext ih => rw [← ih, loops.outcome_eq, hnext]

/-- Where there is no further iteration, the verdict is that of the check. -/
theorem Run.ends {turns : List (Turn g.size)} {loops : Loops g.size} (h : Run g turns loops)
    (hend : ∀ loops', loops.next g ≠ some (.ok loops')) : Ends g loops g.check := by
  have hcheck : g.check = match loops.outcome g with
      | .error e => .error e
      | .ok _ => .ok () := by
    rw [h.outcome_eq, Loops.outcome, exhaust_of_empty rfl]
    rfl
  rw [loops.outcome_eq] at hcheck
  cases hnext : loops.next g with
  | none =>
    rw [hnext] at hcheck
    exact hcheck ▸ .passed hnext
  | some result =>
    cases result with
    | error e =>
      rw [hnext] at hcheck
      exact hcheck ▸ .failed hnext
    | ok loops' => exact absurd hnext (hend loops')

/-- **The loops always end.**  Otherwise there would be more iterations than four for each node. -/
theorem exists_ends (g : ExprGraph) : ∃ turns last, Run g turns last ∧ Ends g last g.check := by
  by_contra hnone
  have hlong : ∀ k, ∃ turns loops, Run g turns loops ∧ turns.length = k := by
    intro k
    induction k with
    | zero => exact ⟨[], _, .initial, rfl⟩
    | succ k ih =>
      obtain ⟨turns, loops, hrun, rfl⟩ := ih
      by_cases hend : ∃ loops', loops.next g = some (.ok loops')
      · obtain ⟨loops', hnext⟩ := hend
        exact ⟨_, loops', hrun.next hnext, by simp⟩
      · exact absurd ⟨turns, loops, hrun, hrun.ends (not_exists.1 hend)⟩ hnone
  obtain ⟨turns, loops, hrun, hlength⟩ := hlong (4 * g.size + 1)
  have := hrun.length_le
  omega

/-! ## All that holds between two iterations -/

/-- What holds between two iterations, after these turns. -/
structure Between (g : ExprGraph) (turns : List (Turn g.size)) (loops : Loops g.size) : Prop where
  /-- The active nodes are those on the stack. -/
  active_iff : ∀ v, loops.search.mark v = .active ↔ v ∈ loops.search.stack.map (·.1)
  /-- No node is on the stack twice. -/
  nodup : (loops.search.stack.map (·.1)).Nodup
  /-- Once the top is popped, the active nodes are those left on the stack, and the popped one. -/
  popped_top : ∀ current stage rest, loops.search.stack = (current, stage) :: rest →
    current ∉ rest.map (·.1) ∧
      ∀ v, loops.search.mark v = .active ↔ v = current ∨ v ∈ rest.map (·.1)
  /-- A stacked node is an operand of the one below, and the search has gone past it there. -/
  linked : loops.search.stack.IsChain fun upper lower => Advanced g lower upper.1
  /-- Operands of finished nodes are in range, and finished too. -/
  finished : ∀ v child, loops.search.mark v = .finished → g.Uses v child →
    ∃ hlt : child < g.size, loops.search.mark ⟨child, hlt⟩ = .finished
  /-- The next iteration moves marks only forward. -/
  marks_move : ∀ loops', loops.next g = some (.ok loops') →
    ∀ v, (loops.search.mark v).Moves (loops'.search.mark v)
  height_le : loops.search.stack.length ≤ g.size
  opened_le : ∀ v, (opened turns).count v ≤ 1
  popped_le : ∀ v, (popped turns).count v ≤ 3
  /-- The pop of the next iteration counted too, there are no more than three. -/
  popped_lt : ∀ current stage rest, loops.search.stack = (current, stage) :: rest →
    (popped turns).count current < 3
  length_le : turns.length ≤ 4 * g.size

theorem Run.between {turns : List (Turn g.size)} {loops : Loops g.size} (h : Run g turns loops) :
    Between g turns loops where
  active_iff := h.invariant.active_iff
  nodup := h.invariant.nodup
  popped_top := by
    intro current stage rest hstack
    have hnodup := h.invariant.nodup
    have hactive := h.invariant.active_iff
    rw [hstack, List.map_cons] at hnodup hactive
    refine ⟨(List.nodup_cons.1 hnodup).1, ?_⟩
    intro v
    rw [hactive, List.mem_cons]
  linked := h.invariant.linked
  finished := by
    intro v child hmark huses
    have hfinished : loops.search.marks[v.val]? = some .finished := by rw [getElem?_marks, hmark]
    exact Vector.getElem?_eq_some_iff.1 (h.invariant.finished_uses hfinished huses)
  marks_move := by
    intro loops' hnext
    exact (Loops.iteration hnext).marks_move h.invariant
  height_le := by simpa using h.invariant.nodup.length_le_card
  opened_le := h.count_opened_le
  popped_le := h.count_popped_le
  popped_lt := by
    intro current stage rest hstack
    exact h.count_popped_lt hstack
  length_le := h.length_le

/-- **The loops of the check.**  Between any two iterations the active nodes are those on the stack,
each of them once, and they form a path; finished nodes only use finished ones; marks only move
forward.  So the stack is never higher than the number of nodes, a node is opened at most once and
popped at most three times, and on every graph the loops end, with the verdict of the check. -/
theorem loops_verdict (g : ExprGraph) :
    (∀ turns loops, Run g turns loops → Between g turns loops) ∧
      ∃ turns last, Run g turns last ∧ Ends g last g.check := by
  refine ⟨?_, exists_ends g⟩
  intro turns loops hrun
  exact hrun.between

/-- A sum and a difference that use each other, and both the same exponential. -/
def entangled : ExprGraph :=
  ⟨#[⟨.canonical .add, .node 1, some (.node 2)⟩, ⟨.canonical .exp, Walk.anyLeaf, none⟩,
    ⟨.canonical .sub, .node 1, some (.node 0)⟩]⟩

/-- After seven turns the exponential has been popped three times, and used twice.  The next turn
meets the sum again. -/
theorem entangled_between : ∃ turns loops, Run entangled turns loops ∧
    Between entangled turns loops ∧ (popped turns).map (·.val) = [0, 1, 1, 1, 0, 2] ∧
    loops.search.stack.map (fun entry => (entry.1.val, entry.2)) =
      [(2, .followRight), (0, .leave)] ∧
    loops.next entangled = some (.error (.cycle 0)) := by
  have hstart := (Run.initial (g := entangled)).next rfl
  have hone := (((hstart.next rfl).next rfl).next rfl).next rfl
  have htwo := (hone.next rfl).next rfl
  exact ⟨_, _, htwo, (loops_verdict entangled).1 _ _ htwo, rfl, rfl, rfl⟩

end Search

end FusedKernel
