import FusedKernel.Graph

/-!
# Search for missing nodes and cycles

A graph is in order if its operands only use numbers of its nodes and no node uses itself,
directly or through others.  `ExprGraph.check` finds out by a depth first search from every
node in turn, with an explicit stack.  A node is `unseen` until the search enters it, `active`
while it is on the stack, and `finished` once both of its operands have been followed; an
operand that is an active node closes a cycle.

A step of the search keeps the top node on the stack and moves it to its next stage, so the
height of the stack is no measure of progress.  `Search.potential` is: it counts the nodes
not yet entered and the stages still ahead of the stacked ones.

Principal result: `Search.potential_step_lt` — every step lowers the potential, which is why
the search ends on every graph.
-/

set_option autoImplicit false

namespace FusedKernel

/-- How far the search has come with a node. -/
inductive Mark where
  | unseen
  | active
  | finished
  deriving DecidableEq, Repr

/-- What the search does next at a node on its stack. -/
inductive Stage where
  | followLeft
  | followRight
  | leave
  deriving DecidableEq, Repr

namespace Stage

def next : Stage → Stage
  | followLeft => followRight
  | followRight => leave
  | leave => leave

/-- Number of times a node in this stage will still be popped. -/
def remaining : Stage → Nat
  | followLeft => 3
  | followRight => 2
  | leave => 1

theorem remaining_next {stage : Stage} (h : stage ≠ leave) :
    stage.next.remaining + 1 = stage.remaining := by
  cases stage <;> simp_all [next, remaining]

end Stage

/-- The node an operand leads to in a given stage. -/
def Node.child? (node : Node) : Stage → Option NodeId
  | .followLeft =>
    match node.left with
    | .node id => some id
    | .leaf _ => none
  | .followRight =>
    match node.right with
    | some (.node id) => some id
    | some (.leaf _) | none => none
  | .leave => none

/-- State of the search in a graph with `n` nodes. -/
structure Search (n : Nat) where
  marks : Vector Mark n
  stack : List (Fin n × Stage)
  deriving DecidableEq, Repr

namespace Search

/-- Nothing seen yet. -/
def initial (n : Nat) : Search n := ⟨Vector.replicate n .unseen, []⟩

/-- The mark of a node. -/
def mark {n : Nat} (search : Search n) (node : Fin n) : Mark := search.marks.get node

/-- Marks a node active and puts it on the stack. -/
def enter {n : Nat} (search : Search n) (node : Fin n) : Search n where
  marks := search.marks.set node .active node.isLt
  stack := (node, .followLeft) :: search.stack

/-- Marks a node finished, with the given nodes left on the stack. -/
def finish {n : Nat} (search : Search n) (node : Fin n) (rest : List (Fin n × Stage)) :
    Search n where
  marks := search.marks.set node .finished node.isLt
  stack := rest

/-- Follows one operand of a node whose next stage is already on the stack. -/
def follow {n : Nat} (search : Search n) (child : NodeId) :
    Except GenerationError (Search n) :=
  if h : child < n then
    match search.mark ⟨child, h⟩ with
    | .unseen => .ok (search.enter ⟨child, h⟩)
    | .active => .error (.cycle child)
    | .finished => .ok search
  else .error (.nodeOutOfRange child)

/-- Pops the top of the stack and does what its stage asks for. -/
def step (g : ExprGraph) (search : Search g.size) : Except GenerationError (Search g.size) :=
  match search.stack with
  | [] => .ok search
  | (current, stage) :: rest =>
    if stage = .leave then .ok (search.finish current rest)
    else
      let advanced := { search with stack := (current, stage.next) :: rest }
      match (g.get current).child? stage with
      | none => .ok advanced
      | some child => advanced.follow child

/-! ## Progress -/

/-- Pops still to come from the nodes on a stack. -/
def pending {n : Nat} : List (Fin n × Stage) → Nat
  | [] => 0
  | (_, stage) :: rest => stage.remaining + pending rest

/-- Bounds the number of steps still to come. -/
def potential {n : Nat} (search : Search n) : Nat :=
  4 * search.marks.count .unseen + pending search.stack

theorem potential_enter {n : Nat} (search : Search n) (node : Fin n)
    (h : search.mark node = .unseen) :
    (search.enter node).potential + 1 = search.potential := by
  have hmark : search.marks[node.val] = .unseen := h
  have hpos : 0 < search.marks.count .unseen :=
    Vector.count_pos_iff.2 (hmark ▸ Vector.getElem_mem node.isLt)
  have hcount : (search.enter node).marks.count .unseen = search.marks.count .unseen - 1 := by
    simp [enter, Vector.count_set, hmark]
  have hpending : pending (search.enter node).stack = 3 + pending search.stack := by
    simp [enter, pending, Stage.remaining]
  simp only [potential, hcount, hpending]
  omega

theorem potential_follow_le {n : Nat} {search search' : Search n} {child : NodeId}
    (h : search.follow child = .ok search') : search'.potential ≤ search.potential := by
  unfold follow at h
  split at h
  · rename_i hlt
    split at h
    · rename_i hmark
      cases h
      have := search.potential_enter ⟨child, hlt⟩ hmark
      omega
    · cases h
    · cases h
      exact Nat.le_refl _
  · cases h

/-- **Every step lowers the potential.** -/
theorem potential_step_lt {g : ExprGraph} {search search' : Search g.size}
    (hne : search.stack ≠ []) (h : step g search = .ok search') :
    search'.potential < search.potential := by
  obtain ⟨marks, stack⟩ := search
  unfold step at h
  split at h
  · rename_i hnil
    exact absurd hnil hne
  rename_i current stage rest hstack
  simp only at hstack
  subst hstack
  split at h
  · rename_i hleave
    cases h
    have hcount : (marks.set current .finished current.isLt).count .unseen ≤
        marks.count .unseen := by
      simp [Vector.count_set]
    simp only [finish, potential, pending, hleave, Stage.remaining]
    omega
  · rename_i hstage
    have hnext := Stage.remaining_next hstage
    have hadv : Search.potential ⟨marks, (current, stage.next) :: rest⟩ <
        Search.potential ⟨marks, (current, stage) :: rest⟩ := by
      simp only [potential, pending]
      omega
    simp only at h
    split at h
    · cases h
      exact hadv
    · exact Nat.lt_of_le_of_lt (potential_follow_le h) hadv

/-! ## The whole search -/

/-- Steps until the stack is empty. -/
def exhaust (g : ExprGraph) (search : Search g.size) : Except GenerationError (Search g.size) :=
  if hne : search.stack = [] then .ok search
  else
    match h : step g search with
    | .error e => .error e
    | .ok search' =>
      have : search'.potential < search.potential := potential_step_lt hne h
      exhaust g search'
termination_by search.potential

/-- Searches from every listed node that has not been seen before its turn comes. -/
def fromEach (g : ExprGraph) :
    List (Fin g.size) → Search g.size → Except GenerationError (Search g.size)
  | [], search => .ok search
  | start :: starts, search =>
    if search.mark start = .unseen then
      match exhaust g (search.enter start) with
      | .error e => .error e
      | .ok search' => fromEach g starts search'
    else fromEach g starts search

end Search

/-- Whether a graph is in order, and if not, the first fault the search meets. -/
def ExprGraph.check (g : ExprGraph) : Except GenerationError Unit :=
  match Search.fromEach g (List.finRange g.size) (Search.initial g.size) with
  | .error e => .error e
  | .ok _ => .ok ()

end FusedKernel
