import FusedKernel.Graph.Walk

/-!
# The events of a walk

An `Event` is one point of a walk, free of what a visitor makes of it.  `Event.recorder`
collects the events in order; `Event.recorderUpTo` refuses one of them, and so stops the
walk there.

Principal result: `recorderUpTo_none` — without a limit nothing is refused.
-/

set_option autoImplicit false

namespace FusedKernel

/-- A point of a walk, at a node. -/
inductive Event where
  | opened (node : NodeId)
  | visited (side : Side) (node : NodeId)
  | closed (node : NodeId)
  deriving DecidableEq, Repr

namespace Event

def node : Event → NodeId
  | opened id => id
  | visited _ id => id
  | closed id => id

/-- The side an event is about; opening and closing concern the node itself. -/
def side : Event → Side
  | opened _ => .self
  | visited side _ => side
  | closed _ => .self

/-- Appends an event, unless it would be event number `limit`, counted from zero. -/
def record (limit : Option Nat) (event : Event) : WalkM (Array Event) Unit := fun events =>
  if limit = some events.size then .error (.noOperand event.node event.side) events
  else .ok () (events.push event)

/-- Collects all events of a walk, refusing event number `limit`. -/
def recorderUpTo (limit : Option Nat) : Visitor (Array Event) where
  enter id _ := record limit (opened id)
  visit side id _ := record limit (visited side id)
  leave id _ := record limit (closed id)

/-- Collects all events of a walk. -/
def recorder : Visitor (Array Event) where
  enter id _ := fun events => .ok () (events.push (opened id))
  visit side id _ := fun events => .ok () (events.push (visited side id))
  leave id _ := fun events => .ok () (events.push (closed id))

/-- Collects the visits of a walk only. -/
def visitRecorder : Visitor (Array Event) where
  visit side id _ := fun events => .ok () (events.push (visited side id))

theorem recorderUpTo_none : recorderUpTo none = recorder := rfl

end Event

end FusedKernel
