import SegmentGate.Error
/-!
# Events

The gate tells what it decided, and what failed without anybody being told, as events. An event has
a kind and the details that the kind sets. It is numbered when it is made (`Stamped`), so that
receivers can restore the order of making even where events are published in another order. The time
of day at which an event is made is left out.
-/
namespace SegmentGate

inductive EventKind where
  /-- A subscriber panicked on an event. Sets `reason`. -/
  | subscriberPanicked
  /-- A subscriber's queue took no further event. Sets `reason`. -/
  | subscriberOverflow
  /-- The table was loaded. Sets `reason`, the name of the store. -/
  | tableLoaded
  /-- The snapshot could not be read; the table starts empty. Sets `reason`. -/
  | loadFailed
  /-- The snapshot could not be written. Sets `job` and `reason`. -/
  | persistFailed
  /-- An execution entered. Sets `job`, `segment` and `ordinal`. -/
  | admitted
  /-- An execution took the waiting seat. Sets `job`, `segment` and `ordinal`. -/
  | parked
  /-- A waiter entered after a departure. Sets `job`, `segment`, `ordinal`, and `other`, who
  left. -/
  | promoted
  /-- An execution lost the waiting seat. Sets `job`, `segment`, `ordinal`, and `other`, who has
  it now. -/
  | superseded
  /-- An execution left. Sets `job`, `segment` and `ordinal`. -/
  | released
  /-- A waiter asked for the segment it waits for. Sets `job`, `segment` and `ordinal`. -/
  | reentered
  /-- A displaced execution could not be aborted. Sets `job`, `segment`, `ordinal`, `other` and
  `reason`. -/
  | cancelFailed
  /-- No capability was found for a waiter. Sets `job`, `segment`, `ordinal`, and `reason`, the
  token. -/
  | resumeUnresolved
  deriving DecidableEq, Repr

structure Event where
  kind : EventKind
  job : Option String := none
  segment : Option String := none
  ordinal : Option Ordinal := none
  other : Option Ordinal := none
  reason : Option String := none
  deriving DecidableEq, Repr

/-- An event with its number. -/
structure Stamped where
  seq : Nat
  event : Event
  deriving DecidableEq, Repr

namespace Event

/-- An event about one execution in one segment. -/
def about (kind : EventKind) (job segment : String) (ordinal : Ordinal) : Event :=
  { kind, job := some job, segment := some segment, ordinal := some ordinal }

/-- The report that a subscriber's queue took no further event. -/
def subscriberOverflow (subscriber reason : String) : Event :=
  { kind := .subscriberOverflow
    reason := some ("subscriber=" ++ subscriber ++ " reason=" ++ reason) }

/-- The report that a subscriber panicked. -/
def subscriberPanicked (subscriber info : String) : Event :=
  { kind := .subscriberPanicked
    reason := some ("subscriber=" ++ subscriber ++ " info=" ++ info) }

def isSubscriberOverflow (e : Event) : Bool := e.kind = .subscriberOverflow

/-- The event reports a failure that no caller was told about. -/
def isFailure (e : Event) : Bool :=
  e.kind = .loadFailed || e.kind = .persistFailed || e.kind = .cancelFailed ||
    e.kind = .resumeUnresolved

/-- Numbers events in the order they were made, from `seq` on. -/
def stampFrom (seq : Nat) : List Event → List Stamped
  | [] => []
  | e :: es => ⟨seq, e⟩ :: stampFrom (seq + 1) es

theorem length_stampFrom (seq : Nat) (es : List Event) : (stampFrom seq es).length = es.length := by
  induction es generalizing seq with
  | nil => rfl
  | cons e es ih => simp [stampFrom, ih]

theorem stampFrom_append (seq : Nat) (es es' : List Event) :
    stampFrom seq (es ++ es') = stampFrom seq es ++ stampFrom (seq + es.length) es' := by
  induction es generalizing seq with
  | nil => rfl
  | cons e es ih => simp [stampFrom, ih, Nat.add_comm, Nat.add_left_comm]

theorem map_event_stampFrom (seq : Nat) (es : List Event) :
    (stampFrom seq es).map Stamped.event = es := by
  induction es generalizing seq with
  | nil => rfl
  | cons e es ih => simp [stampFrom, ih]

end Event
end SegmentGate
