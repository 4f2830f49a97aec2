import SegmentGate.Fanout.Subscriber
/-!
# Audiences

All subscribers of a gate together. An event is offered to every queue without waiting. A queue that
does not take it is reported as an event of its own, except when the event offered is such a report.
`handed` is the whole history of what subscribers were given, in the order they were given it.
-/
namespace SegmentGate

/-- The subscribers of one gate (`SubscriberSet`). -/
structure Audience where
  workers : List Worker
  /-- Every event that was handed over, oldest first, with the place of its subscriber. -/
  handed : List (Nat × Stamped) := []

namespace Audience

def new (subscribers : List Subscriber) : Audience :=
  { workers := subscribers.map fun s => { subscriber := s } }

def size (a : Audience) : Nat := a.workers.length

def isEmpty (a : Audience) : Bool := a.workers.isEmpty

/-- Offers an event to each worker in turn, and reports each refusal at once. -/
def offerAll (e : Stamped) : List Worker → Feed → List Worker × Feed
  | [], f => ([], f)
  | w :: ws, f =>
    let (w, refusal) := w.offer e
    let f := match refusal with
      | some reason =>
        if e.event.isSubscriberOverflow then f
        else f.publish (.subscriberOverflow w.subscriber.name reason)
      | none => f
    let (ws, f) := offerAll e ws f
    (w :: ws, f)

/-- An event goes to every subscriber's queue. -/
def emit (a : Audience) (e : Stamped) (f : Feed) : Audience × Feed :=
  let (workers, f) := offerAll e a.workers f
  ({ a with workers }, f)

/-- The worker at place `i` hands over one event. -/
def work (a : Audience) (i : Nat) (f : Feed) : Option (Audience × Feed) :=
  match a.workers[i]? with
  | none => none
  | some w =>
    match w.work f with
    | none => none
    | some (e, w, f) =>
      some ({ workers := a.workers.set i w, handed := a.handed ++ [(i, e)] }, f)

/-- Each worker in turn, from place `i` on, empties its queue. -/
def drainFrom (i : Nat) : List Worker → Feed → List (Nat × Stamped) × List Worker × Feed
  | [], f => ([], [], f)
  | w :: ws, f =>
    let (es, w, f) := w.drain f
    let (rest, ws, f) := drainFrom (i + 1) ws f
    (es.map ((i, ·)) ++ rest, w :: ws, f)

/-- All workers empty their queues, in the order of declaration (`shutdown`). -/
def drain (a : Audience) (f : Feed) : Audience × Feed :=
  let (handed, workers, f) := drainFrom 0 a.workers f
  ({ workers, handed := a.handed ++ handed }, f)

section Induction
variable {P : Audience → Feed → Prop}
  (hwork : ∀ {a a' : Audience} {f f' : Feed} {i : Nat}, P a f → a.work i f = some (a', f') →
    P a' f')
include hwork

/-- A worker behind those in `done` hands over up to `n` events. -/
theorem workUpTo_induction (n : Nat) {done ws : List Worker} {w : Worker}
    {handed : List (Nat × Stamped)} {f : Feed} (h : P ⟨done ++ w :: ws, handed⟩ f) :
    P ⟨done ++ (w.workUpTo n f).2.1 :: ws,
        handed ++ (w.workUpTo n f).1.map ((done.length, ·))⟩ (w.workUpTo n f).2.2 := by
  induction n generalizing w handed f with
  | zero => simpa [Worker.workUpTo] using h
  | succ n ih =>
    unfold Worker.workUpTo
    cases hw : w.work f with
    | none => simpa using h
    | some x =>
      obtain ⟨e, w₁, f₁⟩ := x
      have hfirst : P ⟨done ++ w₁ :: ws, handed ++ [(done.length, e)]⟩ f₁ :=
        hwork (i := done.length) h (by simp [work, hw])
      simpa using ih hfirst

theorem drainFrom_induction {done ws : List Worker} {handed : List (Nat × Stamped)} {f : Feed}
    (h : P ⟨done ++ ws, handed⟩ f) :
    P ⟨done ++ (drainFrom done.length ws f).2.1,
        handed ++ (drainFrom done.length ws f).1⟩ (drainFrom done.length ws f).2.2 := by
  induction ws generalizing done handed f with
  | nil => simpa [drainFrom] using h
  | cons w ws ih =>
    have hfirst := workUpTo_induction hwork w.queue.length h
    rw [List.append_cons] at hfirst
    simpa [drainFrom, Worker.drain] using ih hfirst

/-- What the workers keep one event at a time holds when the queues are empty. -/
theorem drain_induction {a : Audience} {f : Feed} (h : P a f) :
    P (a.drain f).1 (a.drain f).2 := by
  have hall : P ⟨[] ++ a.workers, a.handed⟩ f := h
  exact drainFrom_induction hwork hall

end Induction

/-- Some queue holds an event. -/
def isBusy (a : Audience) : Bool := a.workers.any fun w => !w.queue.isEmpty

/-- The events handed to the subscriber at place `i`, leaving out the first `old` of all that were
handed over. -/
def seen (a : Audience) (i old : Nat) : List Stamped :=
  (a.handed.drop old).filterMap fun h => if h.1 = i then some h.2 else none

/-- What the subscribers printed, leaving out the first `old` events. -/
def printed (a : Audience) (old : Nat) : String :=
  String.join ((a.handed.drop old).map fun h =>
    match a.workers[h.1]? with
    | some w => if w.subscriber.prints then h.2.event.logLine else ""
    | none => "")

end Audience
end SegmentGate
