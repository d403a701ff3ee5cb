import FusedKernel.Proofs.Graph.SearchVerdict
import FusedKernel.Proofs.Graph.WalkVerdict
import Mathlib.Data.List.FinRange

/-!
# Two ways of checking a graph

Full walks from all nodes in turn meet the same first fault as the search.  The search marks
what it is through with and never looks at it again, and it sees a cycle as soon as that closes.
The walks come to shared nodes over and over, and go around a cycle until they are too deep.
But both take left operands before right ones, so what the search has gone past is what the
walks have been through, and there is only one fault on the way.

* `ExprGraph.walkAll` — full walks from all nodes, up to the first error.

Principal results: `Search.runsInto_of_exhaust` — what the search reports is on the way of a walk;
`check_agrees_with_walkAll` — the same graphs pass, and the same node is missing in the others.
-/

set_option autoImplicit false

namespace FusedKernel

open Relation

variable {g : ExprGraph}

/-- Full walks from all nodes in turn, up to the first error. -/
def ExprGraph.walkAll {σ : Type} (g : ExprGraph) (visitor : Visitor σ) : WalkM σ Unit :=
  (List.range g.size).forM (Walk.run .full g visitor)

theorem Mark.rank_pos {mark : Mark} (h : mark ≠ .unseen) : 0 < mark.rank := by
  cases mark <;> simp_all [rank]

/-- A full walk follows all operands. -/
theorem Walk.Mode.full_operands (node : Node) :
    Walk.Mode.full.left? node = some node.left ∧ Walk.Mode.full.right? node = node.right := by
  simp [Walk.Mode.left?, Walk.Mode.right?, Walk.Mode.follows]

namespace Search

/-! ## The path on the stack -/

/-- Finished nodes have nothing but order below them. -/
theorem Invariant.orderlyBelow {above : Option NodeId} {search : Search g.size}
    (inv : Invariant g above search) {id : NodeId} (hid : search.marks[id]? = some .finished) :
    g.OrderlyBelow .full id := by
  have hfinished : ∀ id', g.Meets .full id id' → search.marks[id']? = some .finished := by
    intro id' hmeets
    unfold ExprGraph.Meets at hmeets
    rw [g.leads_full] at hmeets
    rcases reflTransGen_iff_eq_or_transGen.1 hmeets with rfl | hpath
    · exact hid
    · exact inv.finished_of_transGen hid hpath
  constructor
  · intro id' hmeets
    exact (Vector.getElem?_eq_some_iff.1 (hfinished id' hmeets)).1
  · intro id' hmeets
    rw [g.leads_full]
    exact inv.finished_acyclic (hfinished id' hmeets)

/-- A walk goes on to an operand the search has gone past, provided that the others it has gone
past unfold into trees. -/
theorem proceeds_of_advanced {entry : Fin g.size × Stage} {child : NodeId}
    (h : Advanced g entry child)
    (hothers : ∀ other, Advanced g entry other →
      (∃ tree, Unfolds .full g (some (.node other)) tree) ∨ other = child) :
    g.Proceeds .full entry.1 child := by
  obtain ⟨stage, hlt, hchild⟩ := h
  obtain ⟨hleft?, hright?⟩ := Walk.Mode.full_operands (g.get entry.1)
  refine ⟨g.get entry.1, g.node?_eq_get entry.1, ?_⟩
  rw [hleft?, hright?]
  cases stage with
  | followLeft =>
    left
    cases hleft : (g.get entry.1).left <;> simp_all [Node.child?]
  | followRight =>
    have hright : (g.get entry.1).right = some (.node child) := by
      rcases hcase : (g.get entry.1).right with _ | _ | _ <;> simp_all [Node.child?]
    cases hleft : (g.get entry.1).left with
    | leaf leaf => exact Or.inr ⟨hright, .empty, .leaf leaf⟩
    | node other =>
      have hadvanced : Advanced g entry other := by
        refine ⟨.followLeft, Nat.lt_trans hlt (by decide), ?_⟩
        simp [Node.child?, hleft]
      rcases hothers other hadvanced with htree | rfl
      · exact Or.inr ⟨hright, htree⟩
      · exact Or.inl rfl
  | leave => simp [Node.child?] at hchild

/-- The stack is the path that a walk would be on. -/
theorem Settled.isChain {marks : Vector Mark g.size} {above : Option NodeId}
    {stack : List (Fin g.size × Stage)}
    (hfinished : ∀ id : NodeId, marks[id]? = some .finished →
      ∃ tree, Unfolds .full g (some (.node id)) tree)
    (hsettled : Settled g marks above stack)
    (hlinked : stack.IsChain fun upper lower => Advanced g lower upper.1) :
    stack.IsChain fun upper lower => g.Proceeds .full lower.1 upper.1 := by
  induction stack generalizing above with
  | nil => exact List.isChain_nil
  | cons upper rest ih =>
    refine (ih hsettled.2 hlinked.tail).cons fun lower hlower => ?_
    have hadvanced := (List.isChain_cons.1 hlinked).1 lower hlower
    cases rest with
    | nil => cases hlower
    | cons lower' rest =>
      cases hlower
      refine proceeds_of_advanced hadvanced fun other hother => ?_
      rcases hsettled.2.1 other hother with hfin | heq
      · exact Or.inl (hfinished other hfin)
      · cases heq
        exact Or.inr rfl

/-- With the operand of the top of the stack that comes next, the path goes on. -/
theorem Invariant.proceeds_child {search : Search g.size} {current : Fin g.size} {stage : Stage}
    {rest : List (Fin g.size × Stage)} {child : NodeId} (inv : Invariant g none search)
    (hstack : search.stack = (current, stage) :: rest)
    (hchild : (g.get current).child? stage = some child) : g.Proceeds .full current child := by
  have hstage : stage ≠ .leave := by
    rintro rfl
    simp [Node.child?] at hchild
  have hsettled := inv.settled
  rw [hstack] at hsettled
  have hadvanced : Advanced g (current, stage.next) child :=
    (advanced_next_iff hstage).2 (Or.inr hchild)
  refine proceeds_of_advanced hadvanced fun other hother => ?_
  rcases (advanced_next_iff hstage).1 hother with hbefore | hnow
  · rcases hsettled.1 other hbefore with hfin | hnone
    · exact Or.inl (inv.orderlyBelow hfin).exists_unfolds
    · cases hnone
  · rw [hchild] at hnow
    cases hnow
    exact Or.inr rfl

/-- A walk from `start` would come to every stacked node. -/
def StartedAt (start : NodeId) (search : Search g.size) : Prop :=
  ∀ entry ∈ search.stack, ReflTransGen (g.Proceeds .full) start entry.1

/-- The next step stays on the way of the walk. -/
theorem Outcome.startedAt {start : NodeId} {search search' : Search g.size}
    {current : Fin g.size} {stage : Stage} {rest : List (Fin g.size × Stage)}
    (h : Outcome search current stage rest (.ok search'))
    (hstack : search.stack = (current, stage) :: rest) (inv : Invariant g none search)
    (hstart : StartedAt start search) : StartedAt start search' := by
  unfold StartedAt at hstart
  rw [hstack, List.forall_mem_cons] at hstart
  obtain ⟨hcurrent, hrest⟩ := hstart
  generalize hresult : Except.ok search' = result at h
  cases h with
  | left =>
    cases hresult
    exact hrest
  | passed =>
    cases hresult
    exact List.forall_mem_cons.2 ⟨hcurrent, hrest⟩
  | entered child _ hchild =>
    cases hresult
    refine List.forall_mem_cons.2 ⟨?_, List.forall_mem_cons.2 ⟨hcurrent, hrest⟩⟩
    exact hcurrent.tail (inv.proceeds_child hstack hchild)
  | cyclic => cases hresult
  | missing => cases hresult

/-- A step that fails has come to the fault on the way of the walk. -/
theorem Outcome.runsInto {start : NodeId} {search : Search g.size} {current : Fin g.size}
    {stage : Stage} {rest : List (Fin g.size × Stage)} {e : GenerationError}
    (h : Outcome search current stage rest (.error e))
    (hstack : search.stack = (current, stage) :: rest) (inv : Invariant g none search)
    (hstart : StartedAt start search) : g.RunsInto .full start e := by
  have hcurrent : ReflTransGen (g.Proceeds .full) start current := by
    apply hstart (current, stage)
    rw [hstack]
    exact List.mem_cons_self ..
  generalize hresult : Except.error e = result at h
  cases h with
  | left => cases hresult
  | passed => cases hresult
  | entered => cases hresult
  | missing child hchild hge =>
    cases hresult
    exact .missing (hcurrent.tail (inv.proceeds_child hstack hchild)) hge
  | cyclic child hchild hmark =>
    cases hresult
    obtain ⟨entry, hentry, rfl⟩ := List.mem_map.1 ((inv.active_iff child).1 hmark)
    -- An active node is on the stack, and so on the path to the top of it.
    have hpath : search.stack.IsChain fun upper lower => g.Proceeds .full lower.1 upper.1 :=
      inv.settled.isChain (fun id hid => (inv.orderlyBelow hid).exists_unfolds) inv.linked
    have htop : ReflTransGen (g.Proceeds .full) entry.1 current := by
      rw [hstack] at hpath hentry
      refine hpath.induction (fun e => ReflTransGen (g.Proceeds .full) e.1 current) _
        (fun _ _ hstep hbelow => hbelow.head hstep) ?_ entry hentry
      intro _
      exact .refl
    exact .cyclic entry.1 entry.1 (hstart entry hentry)
      (TransGen.tail' htop (inv.proceeds_child hstack hchild))

/-- **What the search reports is on the way of a walk.** -/
theorem runsInto_of_exhaust {start : NodeId} {search : Search g.size} {e : GenerationError}
    (inv : Invariant g none search) (hstart : StartedAt start search)
    (h : exhaust g search = .error e) : g.RunsInto .full start e := by
  fun_induction exhaust g search with
  | case1 => cases h
  | case2 search hne e' hstep =>
    cases h
    obtain ⟨⟨current, stage⟩, rest, hstack⟩ := List.exists_cons_of_ne_nil hne
    have houtcome := step_outcome hstack
    rw [hstep] at houtcome
    exact houtcome.runsInto hstack inv hstart
  | case3 search hne search' hstep _ ih =>
    obtain ⟨⟨current, stage⟩, rest, hstack⟩ := List.exists_cons_of_ne_nil hne
    have houtcome := step_outcome hstack
    rw [hstep] at houtcome
    exact ih (houtcome.sound hstack inv) (houtcome.startedAt hstack inv hstart) h

end Search

/-! ## All nodes in turn -/

/-- Walks end like the search: both pass, or their errors are alike. -/
def Agrees {α σ : Type} (walked : EStateM.Result GenerationError σ Unit) :
    Except GenerationError α → Prop
  | .ok _ => ∃ s, walked = .ok () s
  | .error e => ∃ e' s, walked = .error e' s ∧ e.Alike e'

namespace Search

/-- With nothing on the stack, all that has been seen has nothing but order below it. -/
theorem Invariant.orderlyBelow_of_seen {search : Search g.size} (inv : Invariant g none search)
    (hempty : search.stack = []) {v : Fin g.size} (hseen : 0 < (search.mark v).rank) :
    g.OrderlyBelow .full v := by
  apply inv.orderlyBelow
  rw [getElem?_marks, inv.finished_of_seen hempty hseen]

theorem fromEach_agrees {σ : Type} {visitor : Visitor σ} (h : visitor.NeverFails)
    (starts : List (Fin g.size)) {search : Search g.size} (inv : Invariant g none search)
    (hempty : search.stack = []) (s : σ) :
    Agrees ((starts.map (·.val)).forM (Walk.run .full g visitor) s)
      (fromEach g starts search) := by
  induction starts generalizing search s with
  | nil => exact ⟨s, rfl⟩
  | cons start starts ih =>
    -- Once the search has seen `start`, a walk from there passes, and the rest is as before.
    have hpass : ∀ {search' : Search g.size}, Invariant g none search' → search'.stack = [] →
        0 < (search'.mark start).rank →
        Agrees (((start :: starts).map (·.val)).forM (Walk.run .full g visitor) s)
          (fromEach g starts search') := by
      intro search' inv' hempty' hseen
      obtain ⟨s', hrun⟩ :=
        (Walk.run_eq_ok_iff h s).2 (inv'.orderlyBelow_of_seen hempty' hseen)
      have hrest : ((start :: starts).map (·.val)).forM (Walk.run .full g visitor) s =
          (starts.map (·.val)).forM (Walk.run .full g visitor) s' := by
        show EStateM.bind (Walk.run .full g visitor start) _ s = _
        rw [EStateM.bind, hrun]
      rw [hrest]
      exact ih inv' hempty' s'
    unfold fromEach
    split
    · rename_i hmark
      have inv' := inv.start hempty hmark
      have hexplored := exhaust_spec inv'
      split
      · rename_i e hend
        have hstart : StartedAt start.val (search.enter start) := by
          unfold StartedAt enter
          rw [hempty, List.forall_mem_singleton]
        obtain ⟨e', s', hrun, halike⟩ :=
          Walk.exists_alike_of_runsInto h s (runsInto_of_exhaust inv' hstart hend)
        refine ⟨e', s', ?_, halike⟩
        show EStateM.bind (Walk.run .full g visitor start) _ s = _
        rw [EStateM.bind, hrun]
      · rename_i mid hend
        rw [hend] at hexplored
        obtain ⟨invMid, hemptyMid, hprogress⟩ := hexplored
        refine hpass invMid hemptyMid (Nat.lt_of_lt_of_le ?_ (hprogress start))
        simp [mark_enter, Mark.rank]
    · rename_i hmark
      exact hpass inv hempty (Mark.rank_pos hmark)

end Search

namespace ExprGraph

theorem walkAll_agrees {σ : Type} {visitor : Visitor σ} (h : visitor.NeverFails)
    (g : ExprGraph) (s : σ) : Agrees (g.walkAll visitor s) g.check := by
  have hagrees := Search.fromEach_agrees h (List.finRange g.size)
    (Search.Invariant.initial g) rfl s
  rw [List.map_coe_finRange_eq_range] at hagrees
  unfold check
  split
  · rename_i e hsearch
    rw [hsearch] at hagrees
    exact hagrees
  · rename_i search hsearch
    rw [hsearch] at hagrees
    exact hagrees

/-- **The search and the walks meet the same fault.**  Both pass the same graphs.  Of the others
both name the same missing node, or both report a cycle. -/
theorem check_agrees_with_walkAll {σ : Type} {visitor : Visitor σ} (h : visitor.NeverFails)
    (g : ExprGraph) (s : σ) :
    ((∃ s', g.walkAll visitor s = .ok () s') ↔ g.check = .ok ()) ∧
    (∀ id, (∃ s', g.walkAll visitor s = .error (.nodeOutOfRange id) s') ↔
      g.check = .error (.nodeOutOfRange id)) ∧
    ((∃ id s', g.walkAll visitor s = .error (.cycle id) s') ↔
      ∃ id, g.check = .error (.cycle id)) := by
  have hagrees := walkAll_agrees h g s
  cases hcheck : g.check with
  | ok =>
    rw [hcheck] at hagrees
    obtain ⟨s', hwalked⟩ := hagrees
    simp [hwalked]
  | error e =>
    rw [hcheck] at hagrees
    obtain ⟨e', s', hwalked, halike⟩ := hagrees
    cases halike with
    | refl => simp [hwalked]
    | cycle id id' => simp [hwalked]

/-- A cycle, and before it a path through all nodes to a number that none of them has. -/
def brokenLoop : ExprGraph :=
  ⟨#[⟨.canonical .add, .node 1, some (.node 0)⟩, ⟨.canonical .sub, Walk.anyLeaf, some (.node 2)⟩,
    ⟨.canonical .innerProduct, Walk.anyLeaf, some (.node 9)⟩]⟩

/-- The missing node is just not too deep for the walks. -/
theorem brokenLoop_agrees : Event.recorder.NeverFails ∧
    (∃ events, brokenLoop.walkAll Event.recorder #[] = .error (.nodeOutOfRange 9) events) ∧
    brokenLoop.check = .error (.nodeOutOfRange 9) := by
  have hwalked : ∃ events,
      brokenLoop.walkAll Event.recorder #[] = .error (.nodeOutOfRange 9) events := ⟨_, rfl⟩
  refine ⟨Event.recorder_neverFails, hwalked, ?_⟩
  exact ((check_agrees_with_walkAll Event.recorder_neverFails brokenLoop #[]).2.1 9).1 hwalked

end ExprGraph

end FusedKernel
