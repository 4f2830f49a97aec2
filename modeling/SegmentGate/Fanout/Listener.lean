import SegmentGate.Fanout.Audience
/-!
# The listener

A gate with subscribers has a listener: a receiver of its bus that passes on every event to the
audience. While it runs it goes on after a lag with the oldest event that is left. Once it is told
to close it passes on what the bus still holds, up to the first lag, lets the workers finish, and
ends; later events do not reach the subscribers.
-/
namespace SegmentGate

inductive ListenerPhase where
  | running
  /-- It was told to close and passes on what is left. -/
  | closing
  | ended
  deriving DecidableEq, Repr

/-- The receiver of a gate that has subscribers (`subscriber_listener`). -/
structure Listener where
  /-- Its receiver on the bus of the gate. -/
  rx : Nat
  audience : Audience
  phase : ListenerPhase := .running

namespace Listener

/-- Starts to listen. -/
def start (subscribers : List Subscriber) (f : Feed) : Listener × Feed :=
  let (rx, bus) := f.bus.subscribe
  ({ rx, audience := .new subscribers }, { f with bus })

/-- Takes one event from the bus and passes it on; none if there is nothing to take. -/
def forward (l : Listener) (f : Feed) : Option (Listener × Feed) :=
  if l.phase = .ended then none
  else
    let (r, bus) := f.bus.receive l.rx
    let f := { f with bus }
    match r with
    | .value e =>
      let (audience, f) := l.audience.emit e f
      some ({ l with audience }, f)
    | .lagged _ => if l.phase = .closing then none else some (l, f)
    | _ => none

/-- Passes on up to `n` events. -/
def forwardUpTo : Nat → Listener → Feed → Listener × Feed
  | 0, l, f => (l, f)
  | n + 1, l, f =>
    match l.forward f with
    | none => (l, f)
    | some (l, f) => forwardUpTo n l f

/-- A bound on the events that can be taken from the bus before it is empty: each one that waits,
with the report of a refusal by each subscriber, and a lag before any of them. -/
def forwardBound (l : Listener) (f : Feed) : Nat :=
  2 * (f.bus.pending l.rx + 1) * (l.audience.size + 2)

/-- Passes on all that the bus holds. -/
def forwardAll (l : Listener) (f : Feed) : Listener × Feed := forwardUpTo (l.forwardBound f) l f

/-- The listener takes everything from the bus, then every worker empties its queue. -/
def round (l : Listener) (f : Feed) : Listener × Feed :=
  let (l, f) := l.forwardAll f
  let (audience, f) := l.audience.drain f
  ({ l with audience }, f)

/-- There is something to pass on or to hand over. -/
def isBusy (l : Listener) (f : Feed) : Bool :=
  l.audience.isBusy || (l.phase != .ended && f.bus.pending l.rx != 0)

/-- Up to `n` rounds. A subscriber that panics on the reports of its own panics would need endless
ones. -/
def settle : Nat → Listener → Feed → Listener × Feed
  | 0, l, f => (l, f)
  | n + 1, l, f =>
    if l.isBusy f then
      let (l, f) := l.round f
      settle n l f
    else (l, f)

/-- Closes the listener (`shutdown`): what the bus holds is passed on, the workers finish, and it
ends. -/
def close (l : Listener) (f : Feed) : Listener × Feed :=
  if l.phase = .ended then (l, f)
  else
    let (l, f) := { l with phase := .closing }.forwardAll f
    let (audience, f) := l.audience.drain f
    ({ l with audience, phase := .ended }, { f with bus := f.bus.unsubscribe l.rx })

end Listener
end SegmentGate
