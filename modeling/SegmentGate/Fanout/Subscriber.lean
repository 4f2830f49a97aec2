import SegmentGate.Event.Feed
import SegmentGate.Event.LogLine
/-!
# Subscribers

Each subscriber has a bounded queue and a worker that hands it the queued events in order. A
subscriber that panics is reported, and its worker goes on with the next event; one that cannot even
give its name ends its worker, and what its queue held is lost.
-/
namespace SegmentGate

/-- What comes of handing an event to a subscriber. -/
inductive Reaction where
  | handled
  /-- It panicked, with a text or with something else. -/
  | panicked (payload : Option String)
  /-- It panicked, and again while it was to be named in the report. -/
  | collapsed
  deriving DecidableEq, Repr

/-- A subscriber (`Subscribe`): what comes of an event (`on_event`) depends on the event only. -/
structure Subscriber where
  name : String
  /-- The bound of its queue. -/
  queueCapacity : Nat
  react : Stamped → Reaction
  /-- It prints the log line of every event. -/
  prints : Bool := false

namespace Subscriber

/-- The bound of a queue where the subscriber does not choose one. -/
def defaultQueueCapacity : Nat := 1024

/-- The subscriber that prints every event. -/
def logWriter : Subscriber where
  name := "LogWriter"
  queueCapacity := defaultQueueCapacity
  react _ := .handled
  prints := true

end Subscriber

/-! ## Workers -/

/-- A subscriber with the queue before it (`Queue`, `spawn_worker`). -/
structure Worker where
  subscriber : Subscriber
  queue : List Stamped := []
  alive : Bool := true

namespace Worker

def capacity (w : Worker) : Nat := max 1 w.subscriber.queueCapacity

/-- Offers an event to the queue; the answer is why it was not taken. -/
def offer (w : Worker) (e : Stamped) : Worker × Option String :=
  if !w.alive then (w, some "closed")
  else if w.queue.length < w.capacity then ({ w with queue := w.queue ++ [e] }, none)
  else (w, some "full")

/-- A queue with room takes the event, unless its worker is dead; otherwise it
is left as it was. -/
theorem offer_cases (w : Worker) (e : Stamped) :
    (w.alive = true ∧ w.queue.length < w.capacity ∧
      w.offer e = ({ w with queue := w.queue ++ [e] }, none)) ∨
    ((w.alive = false ∨ w.capacity ≤ w.queue.length) ∧
      ∃ reason, w.offer e = (w, some reason)) := by
  unfold offer
  split
  · rename_i hdead
    exact .inr ⟨.inl (by simpa using hdead), _, rfl⟩
  · rename_i halive
    split
    · rename_i hroom
      exact .inl ⟨by simpa using halive, hroom, rfl⟩
    · rename_i hfull
      exact .inr ⟨.inr (Nat.le_of_not_lt hfull), _, rfl⟩

/-- Hands the oldest queued event to the subscriber. -/
def work (w : Worker) (f : Feed) : Option (Stamped × Worker × Feed) :=
  match w.queue with
  | [] => none
  | e :: rest =>
    match w.subscriber.react e with
    | .handled => some (e, { w with queue := rest }, f)
    | .panicked payload =>
      some (e, { w with queue := rest },
        f.publish (.subscriberPanicked w.subscriber.name (payload.getD "unknown panic")))
    | .collapsed => some (e, { w with queue := [], alive := false }, f)

/-- Works up to `n` times; also gives the events handed over. -/
def workUpTo : Nat → Worker → Feed → List Stamped × Worker × Feed
  | 0, w, f => ([], w, f)
  | n + 1, w, f =>
    match w.work f with
    | none => ([], w, f)
    | some (e, w, f) =>
      let (es, w, f) := workUpTo n w f
      (e :: es, w, f)

/-- Works until the queue is empty. -/
def drain (w : Worker) (f : Feed) : List Stamped × Worker × Feed := workUpTo w.queue.length w f

end Worker

end SegmentGate
