import SegmentGate.Event.Basic
import SegmentGate.Bus
/-!
# Publishing

A feed is a bus together with the number of the next event that is made. An event gets its number
when it is made, whether or not anybody receives it.
-/
namespace SegmentGate

/-- Where events are made and sent. -/
structure Feed where
  next : Nat
  bus : Bus Stamped

namespace Feed

/-- Sends an event that has its number. -/
def send (f : Feed) (e : Stamped) : Feed := { f with bus := f.bus.publish e }

/-- Makes an event and sends it. -/
def publish (f : Feed) (e : Event) : Feed :=
  { f with next := f.next + 1, bus := f.bus.publish ⟨f.next, e⟩ }

end Feed
end SegmentGate
