import FusedKernel.Proofs.Graph.WalkVerdict

/-!
# A walk is its list of events

The hooks a walk calls, and the fault of the graph that may end it, do not depend on the visitor.
So the walk can be taken once, for its events and its verdict alone, and any visitor run on the
events afterwards.  Hooks are called in the same order and up to the same failure, also on graphs
that are not in order.

* `Visitor.hook`, `Visitor.replay` — the hook an event calls in a graph, and those of a list of
  events up to the first one that fails.
* `Walk.events`, `Walk.verdict` — what a walk records if nothing but a fault stops it, and how it
  ends then.
* `Trace`, `Walk.trace` — both at once, as far as they follow from the graph.

Principal results: `descend_eq_replay` — a descent replays its trace; `replay_eq_error_iff` — a
replay fails with the first hook that does; `run_factors` — a walk is the replay of its events.
-/

set_option autoImplicit false

namespace FusedKernel

variable {σ : Type}

/-- The hook that an event at a node calls. -/
def Visitor.call (visitor : Visitor σ) (node : Node) : Event → WalkM σ Unit
  | .opened id => visitor.enter id node
  | .visited side id => visitor.visit side id node
  | .closed id => visitor.leave id node

/-- The hook that an event calls in a graph; where there is no node, nothing is called. -/
def Visitor.hook (visitor : Visitor σ) (g : ExprGraph) (event : Event) : WalkM σ Unit :=
  match g.node? event.node with
  | none => pure ()
  | some node => visitor.call node event

/-- Calls the hooks of the events in turn, up to the first one that fails. -/
def Visitor.replay (visitor : Visitor σ) (g : ExprGraph) : List Event → WalkM σ Unit
  | [] => pure ()
  | event :: events => do
    visitor.hook g event
    visitor.replay g events

namespace Walk

/-- The events of a walk in order, as they are recorded. -/
def events (mode : Mode) (g : ExprGraph) (root : NodeId) : List Event :=
  match run mode g Event.recorder root #[] with
  | .ok _ recorded => recorded.toList
  | .error _ recorded => recorded.toList

/-- How a walk ends if no hook stops it. -/
def verdict (mode : Mode) (g : ExprGraph) (root : NodeId) : Except GenerationError Unit :=
  match run mode g Event.recorder root #[] with
  | .ok _ _ => .ok ()
  | .error e _ => .error e

/-- Ends as a verdict says. -/
def conclude : Except GenerationError Unit → WalkM σ Unit
  | .ok () => pure ()
  | .error e => throw e

end Walk

/-! ## Replaying events -/

section Replay

variable {visitor : Visitor σ} {g : ExprGraph}

theorem Visitor.replay_append (visitor : Visitor σ) (g : ExprGraph) (events more : List Event) :
    visitor.replay g (events ++ more) =
      (do visitor.replay g events; visitor.replay g more) := by
  induction events with
  | nil => simp [replay]
  | cons event events ih => simp [replay, ih]

/-- A replay fails with the first hook that does, and calls none behind it. -/
theorem Visitor.replay_eq_error_iff {events : List Event} {s s' : σ} {e : GenerationError} :
    visitor.replay g events s = .error e s' ↔
      ∃ before event after mid, events = before ++ event :: after ∧
        visitor.replay g before s = .ok () mid ∧ visitor.hook g event mid = .error e s' := by
  constructor
  · intro h
    induction events generalizing s with
    | nil => cases h
    | cons event events ih =>
      rcases Walk.bind_eq_error_iff.1 h with hhook | ⟨_, mid, hhook, hrest⟩
      · exact ⟨[], event, events, s, rfl, rfl, hhook⟩
      · obtain ⟨before, event', after, mid', rfl, hbefore, hfails⟩ := ih hrest
        refine ⟨event :: before, event', after, mid', rfl, ?_, hfails⟩
        exact Walk.bind_eq_ok_iff.2 ⟨(), mid, hhook, hbefore⟩
  · rintro ⟨before, event, after, mid, rfl, hbefore, hfails⟩
    rw [replay_append]
    refine Walk.bind_eq_error_iff.2 (Or.inr ⟨(), mid, hbefore, ?_⟩)
    exact Walk.bind_eq_error_iff.2 (Or.inl hfails)

theorem Visitor.NeverFails.replay (h : visitor.NeverFails) (g : ExprGraph) (events : List Event)
    (s : σ) : ∃ s', visitor.replay g events s = .ok () s' := by
  induction events generalizing s with
  | nil => exact ⟨s, rfl⟩
  | cons event events ih =>
    have hhook : ∃ mid, visitor.hook g event s = .ok () mid := by
      unfold Visitor.hook
      cases g.node? event.node with
      | none => exact ⟨s, rfl⟩
      | some node =>
        cases event with
        | opened id => exact h.enter id node s
        | visited side id => exact h.visit side id node s
        | closed id => exact h.leave id node s
    obtain ⟨mid, hmid⟩ := hhook
    obtain ⟨s', hs'⟩ := ih mid
    exact ⟨s', Walk.bind_eq_ok_iff.2 ⟨(), mid, hmid, hs'⟩⟩

end Replay

/-! ## Traces -/

/-- The events of a walk and its verdict. -/
structure Trace where
  events : List Event
  verdict : Except GenerationError Unit

namespace Trace

/-- Nothing happens. -/
def done : Trace := ⟨[], .ok ()⟩

/-- A single event. -/
def single (event : Event) : Trace := ⟨[event], .ok ()⟩

/-- A fault of the graph. -/
def fault (e : GenerationError) : Trace := ⟨[], .error e⟩

/-- One trace and then another, unless the first one ends with a fault. -/
def append (trace next : Trace) : Trace :=
  match trace.verdict with
  | .ok () => ⟨trace.events ++ next.events, next.verdict⟩
  | .error _ => trace

instance : Append Trace := ⟨append⟩

/-- Replays the events and ends as the trace does. -/
def replay (trace : Trace) (visitor : Visitor σ) (g : ExprGraph) : WalkM σ Unit := do
  visitor.replay g trace.events
  Walk.conclude trace.verdict

theorem replay_apply (trace : Trace) (visitor : Visitor σ) (g : ExprGraph) (s : σ) :
    trace.replay visitor g s =
      match visitor.replay g trace.events s with
      | .ok () s' => Walk.conclude trace.verdict s'
      | .error e s' => .error e s' := by
  show EStateM.bind _ _ _ = _
  rw [EStateM.bind]
  cases visitor.replay g trace.events s <;> rfl

theorem replay_append (trace next : Trace) (visitor : Visitor σ) (g : ExprGraph) :
    (trace ++ next).replay visitor g =
      (do trace.replay visitor g; next.replay visitor g) := by
  obtain ⟨events, verdict⟩ := trace
  cases verdict with
  | ok =>
    show (do visitor.replay g (events ++ next.events); Walk.conclude next.verdict) = _
    simp [replay, Walk.conclude, Visitor.replay_append]
  | error e =>
    show (do visitor.replay g events; throw e) = _
    simp only [replay, Walk.conclude, bind_assoc]
    rfl

/-- All events are at nodes of the graph. -/
def InRange (g : ExprGraph) (trace : Trace) : Prop :=
  ∀ event ∈ trace.events, event.node < g.size

theorem InRange.append {g : ExprGraph} {trace next : Trace} (h : trace.InRange g)
    (h' : next.InRange g) : (trace ++ next).InRange g := by
  obtain ⟨events, verdict⟩ := trace
  cases verdict with
  | error e => exact h
  | ok =>
    intro event hevent
    rcases List.mem_append.1 (show event ∈ events ++ next.events from hevent) with hin | hin
    · exact h event hin
    · exact h' event hin

end Trace

namespace Walk

/-- The trace of following an operand. -/
def followTrace (walk : NodeId → Trace) (side : Side) (id : NodeId) : Option Operand → Trace
  | none => .done
  | some (.node child) => walk child
  | some (.leaf _) => .single (.visited side id)

/-- The trace of a descent. -/
def trace (mode : Mode) (g : ExprGraph) : Nat → NodeId → Trace
  | 0, id => .fault (.cycle id)
  | levels + 1, id =>
    match g.node? id with
    | none => .fault (.nodeOutOfRange id)
    | some node =>
      .single (.opened id) ++ (followTrace (trace mode g levels) .left id (mode.left? node) ++
        (.single (.visited .self id) ++
          (followTrace (trace mode g levels) .right id (mode.right? node) ++
            .single (.closed id))))

variable {mode : Mode} {g : ExprGraph} {visitor : Visitor σ} {id : NodeId} {node : Node}

theorem replay_single {event : Event} (h : g.node? event.node = some node) :
    (Trace.single event).replay visitor g = visitor.call node event := by
  simp [Trace.replay, Trace.single, Visitor.replay, Visitor.hook, conclude, h]

theorem replay_fault (visitor : Visitor σ) (g : ExprGraph) (e : GenerationError) :
    (Trace.fault e).replay visitor g = throw e := by
  simp [Trace.replay, Trace.fault, Visitor.replay, conclude]

theorem replay_followTrace {walk : NodeId → Trace} (side : Side) (h : g.node? id = some node)
    (operand : Option Operand) :
    (followTrace walk side id operand).replay visitor g =
      follow visitor (fun child => (walk child).replay visitor g) side id node operand := by
  rcases operand with _ | leaf | child
  · simp [followTrace, follow, Trace.done, Trace.replay, Visitor.replay, conclude]
  · have hnode : g.node? (Event.visited side id).node = some node := h
    exact replay_single hnode
  · rfl

/-- **A descent replays its trace.**  By induction on the levels left, with both operands walked on
one level less. -/
theorem descend_eq_replay (levels : Nat) (id : NodeId) :
    descend mode g visitor levels id = (trace mode g levels id).replay visitor g := by
  induction levels generalizing id with
  | zero => exact (replay_fault visitor g _).symm
  | succ levels ih =>
    cases hnode : g.node? id with
    | none => rw [descend_outOfRange mode visitor levels hnode, trace, hnode, replay_fault]
    | some node =>
      have hbelow : descend mode g visitor levels =
          fun child => (trace mode g levels child).replay visitor g := funext ih
      have hcall : ∀ event, event.node = id →
          (Trace.single event).replay visitor g = visitor.call node event :=
        fun event hid => replay_single (hid ▸ hnode)
      rw [descend_node mode visitor levels hnode, hbelow, trace, hnode]
      simp only [Trace.replay_append, replay_followTrace _ hnode, hcall (.opened id) rfl,
        hcall (.visited .self id) rfl, hcall (.closed id) rfl, Visitor.call]

theorem inRange_single {event : Event} (h : g.node? event.node = some node) :
    (Trace.single event).InRange g := by
  intro event' hmem
  rw [List.mem_singleton.1 hmem]
  exact ExprGraph.node?_eq_some_lt h

theorem inRange_followTrace {walk : NodeId → Trace} (side : Side) (h : g.node? id = some node)
    (hwalk : ∀ child, (walk child).InRange g) (operand : Option Operand) :
    (followTrace walk side id operand).InRange g := by
  rcases operand with _ | leaf | child
  · simp [followTrace, Trace.InRange, Trace.done]
  · have hnode : g.node? (Event.visited side id).node = some node := h
    exact inRange_single hnode
  · exact hwalk child

theorem inRange_trace (mode : Mode) (g : ExprGraph) (levels : Nat) (id : NodeId) :
    (trace mode g levels id).InRange g := by
  induction levels generalizing id with
  | zero => simp [trace, Trace.InRange, Trace.fault]
  | succ levels ih =>
    cases hnode : g.node? id with
    | none => simp [trace, hnode, Trace.InRange, Trace.fault]
    | some node =>
      rw [trace, hnode]
      refine .append (inRange_single hnode) (.append (inRange_followTrace .left hnode ih _) ?_)
      refine .append (inRange_single hnode) (.append (inRange_followTrace .right hnode ih _) ?_)
      exact inRange_single hnode

end Walk

/-! ## Recording -/

namespace Event

variable {g : ExprGraph} {limit : Option Nat} {recorded : Array Event}

theorem hook_recorderUpTo (limit : Option Nat) {event : Event} (h : event.node < g.size) :
    (recorderUpTo limit).hook g event = record limit event := by
  have hnode := g.node?_eq_get ⟨event.node, h⟩
  cases event <;> simp [Visitor.hook, Visitor.call, recorderUpTo, hnode]

/-- Short of its limit a recorder appends what it is given. -/
theorem replay_recorderUpTo {events : List Event} (h : ∀ event ∈ events, event.node < g.size)
    (hlimit : ∀ k, limit = some k → recorded.size + events.length ≤ k) :
    (recorderUpTo limit).replay g events recorded = .ok () (recorded ++ events) := by
  induction events generalizing recorded with
  | nil => simp [Visitor.replay]; rfl
  | cons event events ih =>
    have hfree : limit ≠ some recorded.size := by
      intro heq
      have := hlimit _ heq
      simp only [List.length_cons] at this
      omega
    have hrecord : (recorderUpTo limit).hook g event recorded = .ok () (recorded.push event) := by
      rw [hook_recorderUpTo limit (h event (by simp)), record, if_neg hfree]
    refine Walk.bind_eq_ok_iff.2 ⟨(), _, hrecord, ?_⟩
    rw [ih (fun event' hmem => h event' (by simp [hmem]))]
    · simp
    · intro k hk
      have := hlimit k hk
      simp only [List.length_cons, Array.size_push] at this ⊢
      omega

end Event

namespace Walk

variable {mode : Mode} {g : ExprGraph} {root : NodeId}

/-- Recording a walk gives its trace. -/
theorem run_recorder (mode : Mode) (g : ExprGraph) (root : NodeId) :
    run mode g Event.recorder root #[] =
      conclude (trace mode g (g.size + 1) root).verdict
        (trace mode g (g.size + 1) root).events.toArray := by
  have hreplay : Event.recorder.replay g (trace mode g (g.size + 1) root).events #[] =
      .ok () ((#[] : Array Event) ++ (trace mode g (g.size + 1) root).events) :=
    Event.recorderUpTo_none ▸ Event.replay_recorderUpTo (inRange_trace mode g _ root) (by simp)
  rw [run, descend_eq_replay, Trace.replay_apply, hreplay]
  simp

theorem events_eq (mode : Mode) (g : ExprGraph) (root : NodeId) :
    events mode g root = (trace mode g (g.size + 1) root).events := by
  rw [events, run_recorder]
  cases (trace mode g (g.size + 1) root).verdict <;> rfl

theorem verdict_eq (mode : Mode) (g : ExprGraph) (root : NodeId) :
    verdict mode g root = (trace mode g (g.size + 1) root).verdict := by
  rw [verdict, run_recorder]
  cases (trace mode g (g.size + 1) root).verdict <;> rfl

theorem run_eq_replay (mode : Mode) (g : ExprGraph) (visitor : Visitor σ) (root : NodeId)
    (s : σ) :
    run mode g visitor root s =
      match visitor.replay g (events mode g root) s with
      | .ok () s' => conclude (verdict mode g root) s'
      | .error e s' => .error e s' := by
  rw [events_eq, verdict_eq, run, descend_eq_replay, Trace.replay_apply]

theorem run_eq_error_of_hook {visitor : Visitor σ} {k : Nat} (hk : k < (events mode g root).length)
    {s mid s' : σ} {e : GenerationError}
    (hbefore : visitor.replay g ((events mode g root).take k) s = .ok () mid)
    (hhook : visitor.hook g (events mode g root)[k] mid = .error e s') :
    run mode g visitor root s = .error e s' := by
  have hsplit : events mode g root = (events mode g root).take k ++
      (events mode g root)[k] :: (events mode g root).drop (k + 1) := by
    rw [List.getElem_cons_drop, List.take_append_drop]
  have hreplay : visitor.replay g (events mode g root) s = .error e s' :=
    Visitor.replay_eq_error_iff.2 ⟨_, _, _, mid, hsplit, hbefore, hhook⟩
  rw [run_eq_replay, hreplay]

/-- **A walk is the replay of its events.**  For every graph, also one with cycles or missing
nodes, the events and the verdict recorded once stand for the walk of any visitor: its hooks are
called for the events in order, the first one that fails ends the walk with its error, and if none
does the walk ends with the verdict.  A recorder that refuses an event has all those before it. -/
theorem run_factors (mode : Mode) (g : ExprGraph) (root : NodeId) :
    (∀ event ∈ events mode g root, event.node < g.size) ∧
    (∀ {σ : Type} (visitor : Visitor σ) (s : σ),
      run mode g visitor root s =
        match visitor.replay g (events mode g root) s with
        | .ok () s' => conclude (verdict mode g root) s'
        | .error e s' => .error e s') ∧
    (∀ {σ : Type} (visitor : Visitor σ) (s : σ), visitor.NeverFails →
      ∃ s', visitor.replay g (events mode g root) s = .ok () s' ∧
        run mode g visitor root s = conclude (verdict mode g root) s') ∧
    (∀ {σ : Type} (visitor : Visitor σ) (s mid s' : σ) (e : GenerationError) (k : Nat)
      (hk : k < (events mode g root).length),
      visitor.replay g ((events mode g root).take k) s = .ok () mid →
      visitor.hook g (events mode g root)[k] mid = .error e s' →
      run mode g visitor root s = .error e s') ∧
    ∀ (k : Nat) (hk : k < (events mode g root).length),
      run mode g (Event.recorderUpTo (some k)) root #[] =
        .error (.noOperand (events mode g root)[k].node (events mode g root)[k].side)
          ((events mode g root).take k).toArray := by
  have hrange : ∀ event ∈ events mode g root, event.node < g.size := by
    rw [events_eq]
    exact inRange_trace mode g _ root
  refine ⟨hrange, fun visitor s => run_eq_replay mode g visitor root s, ?_, ?_, ?_⟩
  · intro σ visitor s hnever
    obtain ⟨s', hs'⟩ := hnever.replay g (events mode g root) s
    exact ⟨s', hs', by rw [run_eq_replay, hs']⟩
  · intro σ visitor s mid s' e k hk hbefore hhook
    exact run_eq_error_of_hook hk hbefore hhook
  · intro k hk
    have hbefore : (Event.recorderUpTo (some k)).replay g ((events mode g root).take k) #[] =
        .ok () ((#[] : Array Event) ++ (events mode g root).take k) := by
      refine Event.replay_recorderUpTo (fun _ hmem => hrange _ (List.mem_of_mem_take hmem)) ?_
      intro limit hlimit
      cases hlimit
      simp only [Array.size_empty, List.length_take]
      omega
    refine run_eq_error_of_hook hk hbefore ?_
    rw [Event.hook_recorderUpTo _ (hrange _ (List.getElem_mem hk)), Event.record, if_pos]
    · simp
    · simp [Nat.min_eq_left hk.le]

/-- A sum that is its own operand. -/
def endlessSum : ExprGraph := ⟨#[⟨.canonical .add, .node 0, some anyLeaf⟩]⟩

/-- The walk opens the sum as often as there are levels, and a recorder may refuse the second
time. -/
theorem endlessSum_factors :
    events .fused endlessSum 0 = [.opened 0, .opened 0] ∧
    run .fused endlessSum (Event.recorderUpTo (some 1)) 0 #[] =
      .error (.noOperand 0 .self) #[.opened 0] :=
  ⟨rfl, (run_factors .fused endlessSum 0).2.2.2.2 1 (by decide)⟩

end Walk

end FusedKernel
