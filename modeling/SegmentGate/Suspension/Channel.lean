import SegmentGate.Suspension.Basic
/-!
# The built-in capability

A channel joins the gate to one suspended execution. The gate's side signals, the execution's side
waits. The first signal settles the outcome and later ones do not change it. An abort also cancels
the channel, so that work already started can notice; it fails, and does nothing, once the
execution's side is gone.
-/
namespace SegmentGate

/-- The pair of `Signal`, the gate's side, and `Parked`, the execution's. -/
structure Channel where
  /-- The first signal given: `ok` to proceed, or why to give up. -/
  outcome : Option (Except Interruption Unit) := none
  cancelled : Bool := false
  /-- The gate's side exists. -/
  signalAlive : Bool := true
  /-- The execution's side exists. -/
  parkedAlive : Bool := true

namespace Channel

instance : Inhabited Channel := ⟨{}⟩

/-- A channel that nobody has used yet. -/
def fresh : Channel := {}

/-- The outcome after one more signal. -/
def settle (c : Channel) (verdict : Except Interruption Unit) : Channel :=
  { c with outcome := c.outcome.or (some verdict) }

def proceed (c : Channel) : Channel := c.settle (.ok ())

def abort (c : Channel) (cause : Interruption) : Channel × Except AbortError Unit :=
  if c.parkedAlive then ({ c.settle (.error cause) with cancelled := true }, .ok ())
  else (c, .error .gone)

/-- What the execution learns when it looks: nothing yet, or a verdict. A settled outcome outlives
the gate's side; without one, losing that side is a verdict too. -/
def wait (c : Channel) : Option (Except Interruption Unit) :=
  match c.outcome with
  | some verdict => some verdict
  | none => if c.signalAlive then none else some (.error .detached)

def dropSignal (c : Channel) : Channel := { c with signalAlive := false }

def dropParked (c : Channel) : Channel := { c with parkedAlive := false }

end Channel
end SegmentGate
