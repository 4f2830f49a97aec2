import SegmentGate.Fanout.Listener
import SegmentGate.Proofs.Broadcast

/-!
# Listener and workers at the same time

Calls of a gate publish events, other receivers come, look and go, the listener
takes events from the bus and offers each to one queue after the other, and
every worker hands over what its queue holds; all of this in any order. `Relay`
is the bus, the audience and the stage of the listener, with a history: what
was published, which of it are reports about subscribers, what the listener has
taken, which lags it was told, and which offers were refused. A move that does
not fit is none.

The moves are smaller than the steps of `Listener` and `Audience`, so that more
can happen in between: a worker may report a panic while the listener offers an
event, and the gate may publish while an event is handed over. `Listening` makes
the larger steps out of the moves.

`StepTo` says everything that a move can do (`stepTo_step`).
-/
namespace SegmentGate

/-! ## Sums -/

/-- The sum of what `f` says of each. -/
def total {α : Type} (f : α → Nat) : List α → Nat
  | [] => 0
  | x :: xs => f x + total f xs

section
variable {α : Type} (f : α → Nat)

theorem total_append (xs ys : List α) : total f (xs ++ ys) = total f xs + total f ys := by
  induction xs with
  | nil => simp [total]
  | cons x xs ih => simp [total, ih, Nat.add_assoc]

theorem total_set {l : List α} {i : Nat} {y : α} (h : l[i]? = some y) (x : α) :
    total f (l.set i x) + f y = total f l + f x := by
  induction l generalizing i with
  | nil => simp at h
  | cons a l ih =>
    cases i with
    | zero =>
      obtain rfl : a = y := by simpa using h
      simp only [List.set_cons_zero, total]
      omega
    | succ i =>
      have hrest := ih (i := i) (by simpa using h)
      simp only [List.set_cons_succ, total]
      omega

theorem total_drop_le (l : List α) {i j : Nat} (h : i ≤ j) :
    total f (l.drop j) ≤ total f (l.drop i) := by
  obtain ⟨k, rfl⟩ := Nat.exists_eq_add_of_le h
  have hsum := congrArg (total f) (List.take_append_drop k (l.drop i))
  rw [total_append, List.drop_drop] at hsum
  omega

theorem total_le {k : Nat} (h : ∀ x, f x ≤ k) (l : List α) : total f l ≤ k * l.length := by
  induction l with
  | nil => exact Nat.zero_le _
  | cons x l ih =>
    have hx := h x
    rw [total, List.length_cons, Nat.mul_succ]
    omega

theorem total_eq_zero {l : List α} (h : ∀ x ∈ l, f x = 0) : total f l = 0 := by
  induction l with
  | nil => rfl
  | cons x l ih =>
    rw [total, h x List.mem_cons_self, ih fun y hy => h y (List.mem_cons_of_mem _ hy)]

end

/-! ## The machine -/

/-- How far the listener has come. -/
inductive Relay.Stage where
  /-- It passes on events, and waits for more of them or to be told to close. -/
  | listening
  /-- It was told to close and passes on what is left. -/
  | draining
  /-- It takes nothing more; the workers finish. -/
  | finishing
  | ended
  deriving DecidableEq, Repr

/-- It still takes events from the bus. -/
def Relay.Stage.isTaking : Relay.Stage → Bool
  | .listening | .draining => true
  | .finishing | .ended => false

theorem Relay.Stage.not_ended {x : Relay.Stage} (h : x.isTaking = true) : x ≠ .ended := by
  rintro rfl
  cases h

/-- The listener was told that it has missed events: the one at position `due`,
and all up to the oldest one left, which is at position `oldest`. -/
structure Relay.Lag where
  stage : Relay.Stage
  due : Nat
  oldest : Nat
  deriving DecidableEq, Repr

structure Relay where
  feed : Feed
  /-- The receiver of the listener. -/
  rx : Nat
  audience : Audience
  stage : Relay.Stage := .listening
  /-- The listener was told to close. -/
  closing : Bool := false
  /-- The event at hand, and the place of the next worker that it is offered to. -/
  offering : Option (Stamped × Nat) := none
  /-- What each worker is handing over. -/
  handling : List (Option Stamped)
  /-- The position of the event that the listener takes next. -/
  position : Nat := 0
  /-- Everything published since the listener has started. -/
  published : List Stamped := []
  /-- The reports among that which listener and workers have made. -/
  reports : List Event := []
  /-- What the listener has taken, with the positions. -/
  taken : List (Stamped × Nat) := []
  lags : List Relay.Lag := []
  /-- The offers that were refused, with the place of the worker. -/
  refused : List (Nat × Stamped) := []

namespace Relay

inductive Move where
  /-- A call of the gate publishes an event; the events made meanwhile have the
  numbers below `next`. -/
  | publish (next : Nat) (e : Stamped)
  /-- One more receiver listens. -/
  | join
  /-- Receiver `k`, which is not the one of the listener, takes a look. -/
  | look (k : Nat)
  /-- Receiver `k` goes away. -/
  | leave (k : Nat)
  /-- The gate is told to shut down. -/
  | shutdown
  /-- The listener looks at the bus. -/
  | take
  /-- The listener offers the event at hand to the next worker. -/
  | offer
  /-- The listener notices that it is to close. -/
  | drain
  /-- Worker `i` begins to hand over an event. -/
  | pick (i : Nat)
  /-- The subscriber of worker `i` is done with the event. -/
  | react (i : Nat)
  /-- All workers are done, and the listener ends. -/
  | finish
  deriving DecidableEq

namespace Move

def isPublish : Move → Bool
  | .publish .. => true
  | _ => false

/-- A move of the listener or of a worker. -/
def isOwn : Move → Bool
  | .take | .offer | .drain | .pick _ | .react _ | .finish => true
  | _ => false

end Move

/-! ## Moves -/

/-- A new gate with subscribers; the next event made has the number `next`. -/
def start (next capacity : Nat) (subscribers : List Subscriber) : Relay :=
  let (l, feed) := Listener.start subscribers ⟨next, .new capacity⟩
  { feed, rx := l.rx, audience := l.audience, handling := subscribers.map fun _ => none }

def size (s : Relay) : Nat := s.audience.size

/-- No worker has anything to hand over. -/
def idle (s : Relay) : Bool := !s.audience.isBusy && s.handling.all Option.isNone

def setBus (s : Relay) (bus : Bus Stamped) : Relay := { s with feed := { s.feed with bus } }

def setWorker (s : Relay) (i : Nat) (w : Worker) : Relay :=
  { s with audience := { s.audience with workers := s.audience.workers.set i w } }

def send (s : Relay) (next : Nat) (e : Stamped) : Relay :=
  { s with feed := { s.feed with next }.send e, published := s.published ++ [e] }

/-- Listener or workers report something about a subscriber. -/
def report (s : Relay) (e : Event) : Relay :=
  { s with feed := s.feed.publish e, published := s.published ++ [⟨s.feed.next, e⟩],
           reports := s.reports ++ [e] }

/-- The listener has taken the event `e`, and has it at hand. -/
def hold (s : Relay) (bus : Bus Stamped) (e : Stamped) : Relay :=
  { s.setBus bus with
      position := s.position + 1, offering := some (e, 0), taken := s.taken ++ [(e, s.position)] }

/-- What the listener is told when the ring has gone past it. -/
def lag (s : Relay) : Lag := ⟨s.stage, s.position, s.feed.bus.start⟩

/-- The listener was told of events that it has missed. -/
def skip (s : Relay) (bus : Bus Stamped) : Relay :=
  { s.setBus bus with position := s.feed.bus.start, lags := s.lags ++ [s.lag] }

/-- A lag ends the drain. The receiver is not used again. -/
def halt (s : Relay) : Relay :=
  { s with stage := .finishing, lags := s.lags ++ [s.lag] }

/-- The listener that runs goes on after a lag, and waits when nothing is left.
One that drains the bus stops at a lag as it does when nothing is left. -/
def take (s : Relay) : Option Relay :=
  match s.offering, s.stage, s.feed.bus.receive s.rx with
  | none, .listening, (.value e, bus) => some (s.hold bus e)
  | none, .listening, (.lagged _, bus) => some (s.skip bus)
  | none, .draining, (.value e, bus) => some (s.hold bus e)
  | none, .draining, (.lagged _, _) => some s.halt
  | none, .draining, _ => some { s with stage := .finishing }
  | _, _, _ => none

/-- Worker `i` was offered the event `e` at hand. -/
def advance (s : Relay) (e : Stamped) (i : Nat) : Relay := { s with offering := some (e, i + 1) }

/-- Worker `i` has not taken the event `e`. -/
def decline (s : Relay) (i : Nat) (e : Stamped) : Relay :=
  { s with refused := s.refused ++ [(i, e)] }

/-- A refusal is reported, but not that of such a report. -/
def refuse (s : Relay) (i : Nat) (e : Stamped) (name reason : String) : Relay :=
  if e.event.isSubscriberOverflow then s.decline i e
  else (s.decline i e).report (.subscriberOverflow name reason)

def offer (s : Relay) : Option Relay :=
  match s.offering with
  | none => none
  | some (e, i) =>
    match s.audience.workers[i]? with
    | none => some { s with offering := none }
    | some w =>
      match w.offer e with
      | (w, none) => some ((s.setWorker i w).advance e i)
      | (w, some reason) =>
        some (((s.setWorker i w).advance e i).refuse i e w.subscriber.name reason)

/-- Worker `w` at place `i` hands over the event `e`, in front of `rest`. -/
def hand (s : Relay) (i : Nat) (w : Worker) (e : Stamped) (rest : List Stamped) : Relay :=
  { s with
      audience.workers := s.audience.workers.set i { w with queue := rest }
      audience.handed := s.audience.handed ++ [(i, e)]
      handling := s.handling.set i (some e) }

def pick (s : Relay) (i : Nat) : Option Relay :=
  match s.audience.workers[i]?, s.handling[i]? with
  | some w, some none =>
    match w.queue with
    | [] => none
    | e :: rest => some (s.hand i w e rest)
  | _, _ => none

/-- Worker `i` is free again. -/
def release (s : Relay) (i : Nat) : Relay := { s with handling := s.handling.set i none }

def react (s : Relay) (i : Nat) : Option Relay :=
  match s.audience.workers[i]?, s.handling[i]? with
  | some w, some (some e) =>
    match w.subscriber.react e with
    | .handled => some (s.release i)
    | .panicked payload =>
      some ((s.release i).report
        (.subscriberPanicked w.subscriber.name (payload.getD "unknown panic")))
    | .collapsed => some ((s.release i).setWorker i { w with queue := [], alive := false })
  | _, _ => none

def step (s : Relay) : Move → Option Relay
  | .publish next e => some (s.send next e)
  | .join => some (s.setBus s.feed.bus.subscribe.2)
  | .look k => if k = s.rx then none else some (s.setBus (s.feed.bus.receive k).2)
  | .leave k => if k = s.rx then none else some (s.setBus (s.feed.bus.unsubscribe k))
  | .shutdown => some { s with closing := true }
  | .take => s.take
  | .offer => s.offer
  | .drain =>
    if s.closing ∧ s.stage = .listening ∧ s.offering = none then
      some { s with stage := .draining }
    else none
  | .pick i => s.pick i
  | .react i => s.react i
  | .finish =>
    if s.stage = .finishing ∧ s.idle then
      some { s.setBus (s.feed.bus.unsubscribe s.rx) with stage := .ended }
    else none

/-- The state after moves that all fit. -/
def run (s : Relay) : List Move → Option Relay
  | [] => some s
  | m :: moves => (s.step m).bind (run · moves)

/-! ## One move -/

/-- What a move makes of the state. -/
inductive StepTo (s : Relay) : Move → Relay → Prop
  | publishes (next : Nat) (e : Stamped) : StepTo s (.publish next e) (s.send next e)
  /-- Other receivers come, look and go. -/
  | aside (m : Move) (hp : m.isPublish = false) (ho : m.isOwn = false) (bus : Bus Stamped)
      (hbus : s.rx < s.feed.bus.cursors.length → Bus.SameFor s.rx s.feed.bus bus) :
      StepTo s m (s.setBus bus)
  | closes : StepTo s .shutdown { s with closing := true }
  | drains (hc : s.closing = true) (hs : s.stage = .listening) (ho : s.offering = none) :
      StepTo s .drain { s with stage := .draining }
  | holds (ho : s.offering = none) (hs : s.stage.isTaking = true)
      (e : Stamped) (bus : Bus Stamped) (hr : s.feed.bus.receive s.rx = (.value e, bus)) :
      StepTo s .take (s.hold bus e)
  | skips (ho : s.offering = none) (hs : s.stage = .listening) (n : Nat) (bus : Bus Stamped)
      (hr : s.feed.bus.receive s.rx = (.lagged n, bus)) : StepTo s .take (s.skip bus)
  | halts (ho : s.offering = none) (hs : s.stage = .draining) (n : Nat) (bus : Bus Stamped)
      (hr : s.feed.bus.receive s.rx = (.lagged n, bus)) : StepTo s .take s.halt
  /-- Nothing is left on the bus. -/
  | empties (ho : s.offering = none) (hs : s.stage = .draining)
      (hv : ∀ e bus, s.feed.bus.receive s.rx ≠ (.value e, bus))
      (hl : ∀ n bus, s.feed.bus.receive s.rx ≠ (.lagged n, bus)) :
      StepTo s .take { s with stage := .finishing }
  | accepts (e : Stamped) (i : Nat) (ho : s.offering = some (e, i)) (w : Worker)
      (hw : s.audience.workers[i]? = some w) (ha : w.alive = true) :
      StepTo s .offer ((s.setWorker i { w with queue := w.queue ++ [e] }).advance e i)
  /-- A report about a refusal is refused, and nobody is told. -/
  | declines (e : Stamped) (i : Nat) (ho : s.offering = some (e, i)) (w : Worker)
      (hw : s.audience.workers[i]? = some w) (hover : e.event.isSubscriberOverflow = true) :
      StepTo s .offer ((s.advance e i).decline i e)
  | refuses (e : Stamped) (i : Nat) (ho : s.offering = some (e, i)) (w : Worker)
      (hw : s.audience.workers[i]? = some w) (hover : e.event.isSubscriberOverflow = false)
      (reason : String) :
      StepTo s .offer
        (((s.advance e i).decline i e).report (.subscriberOverflow w.subscriber.name reason))
  /-- The event was offered to all workers. -/
  | offers (e : Stamped) (i : Nat) (ho : s.offering = some (e, i))
      (hi : s.size ≤ i) : StepTo s .offer { s with offering := none }
  | hands (i : Nat) (w : Worker) (hw : s.audience.workers[i]? = some w) (e : Stamped)
      (rest : List Stamped) (hq : w.queue = e :: rest) (hh : s.handling[i]? = some none) :
      StepTo s (.pick i) (s.hand i w e rest)
  | handles (i : Nat) (e : Stamped) (hh : s.handling[i]? = some (some e)) :
      StepTo s (.react i) (s.release i)
  | panics (i : Nat) (w : Worker) (hw : s.audience.workers[i]? = some w) (e : Stamped)
      (hh : s.handling[i]? = some (some e)) (payload : Option String)
      (hr : w.subscriber.react e = .panicked payload) :
      StepTo s (.react i) ((s.release i).report
        (.subscriberPanicked w.subscriber.name (payload.getD "unknown panic")))
  | collapses (i : Nat) (w : Worker) (hw : s.audience.workers[i]? = some w) (e : Stamped)
      (hh : s.handling[i]? = some (some e)) :
      StepTo s (.react i) ((s.release i).setWorker i { w with queue := [], alive := false })
  | finishes (hs : s.stage = .finishing) (hi : s.idle = true) :
      StepTo s .finish { s.setBus (s.feed.bus.unsubscribe s.rx) with stage := .ended }

variable {s s' : Relay}

theorem stepTo_take (h : s.take = some s') : StepTo s .take s' := by
  unfold take at h
  split at h
  · rename_i e bus ho hs hr
    cases h
    exact .holds ho (by rw [hs]; rfl) e bus hr
  · rename_i n bus ho hs hr
    cases h
    exact .skips ho hs n bus hr
  · rename_i e bus ho hs hr
    cases h
    exact .holds ho (by rw [hs]; rfl) e bus hr
  · rename_i n bus ho hs hr
    cases h
    exact .halts ho hs n bus hr
  · rename_i ho hs hv hl
    cases h
    exact .empties ho hs hv hl
  · cases h

theorem setWorker_self {i : Nat} {w : Worker} (hw : s.audience.workers[i]? = some w) :
    s.setWorker i w = s := by
  obtain ⟨hi, rfl⟩ := List.getElem?_eq_some_iff.mp hw
  simp [setWorker]

theorem worker_setWorker {i j : Nat} {w v : Worker}
    (hv : (s.setWorker i w).audience.workers[j]? = some v) :
    j = i ∧ v = w ∨ j ≠ i ∧ s.audience.workers[j]? = some v := by
  by_cases hij : j = i
  · subst hij
    have hlt : j < s.audience.workers.length := by
      simpa [setWorker] using (List.getElem?_eq_some_iff.mp hv).1
    exact .inl ⟨rfl, by simpa [setWorker, hlt, eq_comm] using hv⟩
  · exact .inr ⟨hij, by simpa [setWorker, List.getElem?_set_ne (Ne.symm hij)] using hv⟩

theorem stepTo_offer (h : s.offer = some s') : StepTo s .offer s' := by
  unfold offer at h
  split at h
  · cases h
  · rename_i e i ho
    split at h
    · rename_i hw
      cases h
      exact .offers e i ho (List.getElem?_eq_none_iff.mp hw)
    · rename_i w hw
      rcases w.offer_cases e with ⟨ha, -, hoffer⟩ | ⟨-, reason, hoffer⟩
      · rw [hoffer] at h
        cases h
        exact .accepts e i ho w hw ha
      · rw [hoffer] at h
        simp only [setWorker_self hw, refuse] at h
        split at h
        · rename_i hover
          cases h
          exact .declines e i ho w hw hover
        · rename_i hover
          cases h
          exact .refuses e i ho w hw (by simpa using hover) reason

theorem stepTo_pick {i : Nat} (h : s.pick i = some s') : StepTo s (.pick i) s' := by
  unfold pick at h
  split at h
  · rename_i w hw hh
    split at h
    · cases h
    · rename_i e rest hq
      cases h
      exact .hands i w hw e rest hq hh
  · cases h

theorem stepTo_react {i : Nat} (h : s.react i = some s') : StepTo s (.react i) s' := by
  unfold react at h
  split at h
  · rename_i w e hw hh
    split at h
    · cases h
      exact .handles i e hh
    · rename_i payload hr
      cases h
      exact .panics i w hw e hh payload hr
    · cases h
      exact .collapses i w hw e hh
  · cases h

theorem stepTo_step {m : Move} (h : s.step m = some s') : StepTo s m s' := by
  cases m with
  | publish next e =>
    cases h
    exact .publishes next e
  | join =>
    cases h
    exact .aside .join rfl rfl _ Bus.sameFor_subscribe
  | look k =>
    simp only [step] at h
    split at h
    · cases h
    · rename_i hk
      cases h
      exact .aside (.look k) rfl rfl _ fun _ => Bus.sameFor_receive _ hk
  | leave k =>
    simp only [step] at h
    split at h
    · cases h
    · rename_i hk
      cases h
      exact .aside (.leave k) rfl rfl _ fun _ => Bus.sameFor_unsubscribe _ hk
  | shutdown =>
    cases h
    exact .closes
  | take => exact stepTo_take h
  | offer => exact stepTo_offer h
  | drain =>
    simp only [step] at h
    split at h
    · rename_i hd
      cases h
      exact .drains hd.1 hd.2.1 hd.2.2
    · cases h
  | pick i => exact stepTo_pick h
  | react i => exact stepTo_react h
  | finish =>
    simp only [step] at h
    split at h
    · rename_i hf
      cases h
      exact .finishes hf.1 hf.2
    · cases h

/-! ## The number of workers -/

theorem size_report (e : Event) : (s.report e).size = s.size := rfl

theorem size_release (i : Nat) : (s.release i).size = s.size := rfl

theorem size_setWorker (i : Nat) (w : Worker) : (s.setWorker i w).size = s.size :=
  List.length_set

theorem size_hand (i : Nat) (w : Worker) (e : Stamped) (rest : List Stamped) :
    (s.hand i w e rest).size = s.size :=
  List.length_set

/-! ## Runs -/

theorem run_append (s : Relay) (xs ys : List Move) :
    s.run (xs ++ ys) = (s.run xs).bind (run · ys) := by
  induction xs generalizing s with
  | nil => rfl
  | cons x xs ih =>
    simp only [List.cons_append, run]
    cases s.step x with
    | none => rfl
    | some s => exact ih s

/-- What each of some moves keeps, a run of them keeps. -/
theorem run_induction {I : Relay → Prop} {moves : List Move}
    (hstep : ∀ m ∈ moves, ∀ s s', I s → StepTo s m s' → I s')
    (hs : I s) (h : s.run moves = some s') : I s' := by
  induction moves generalizing s with
  | nil =>
    cases h
    exact hs
  | cons m moves ih =>
    obtain ⟨s₁, hm, h⟩ := Option.bind_eq_some_iff.mp h
    refine ih (fun m hm => hstep m (List.mem_cons_of_mem _ hm)) ?_ h
    exact hstep m List.mem_cons_self s s₁ hs (stepTo_step hm)

/-- Nothing is taken back of what the state tells about the past. -/
structure Grows (s s' : Relay) : Prop where
  published : s.published <+: s'.published
  taken : s.taken <+: s'.taken
  lags : s.lags <+: s'.lags
  refused : s.refused <+: s'.refused

namespace Grows

theorem refl (s : Relay) : Grows s s :=
  ⟨List.prefix_rfl, List.prefix_rfl, List.prefix_rfl, List.prefix_rfl⟩

theorem trans {s'' : Relay} (h : Grows s s') (h' : Grows s' s'') : Grows s s'' :=
  ⟨h.published.trans h'.published, h.taken.trans h'.taken, h.lags.trans h'.lags,
    h.refused.trans h'.refused⟩

theorem report (s : Relay) (e : Event) : Grows s (s.report e) :=
  { refl s with published := List.prefix_append _ _ }

theorem step {m : Move} (h : StepTo s m s') : Grows s s' := by
  cases h with
  | publishes next e => exact { refl s with published := List.prefix_append _ _ }
  | holds ho hs e bus hr => exact { refl s with taken := List.prefix_append _ _ }
  | skips ho hs n bus hr => exact { refl s with lags := List.prefix_append _ _ }
  | halts ho hs n bus hr => exact { refl s with lags := List.prefix_append _ _ }
  | declines e i ho w hw hover => exact { refl s with refused := List.prefix_append _ _ }
  | refuses e i ho w hw hover reason =>
    have hdecline : Grows s ((s.advance e i).decline i e) :=
      { refl s with refused := List.prefix_append _ _ }
    exact hdecline.trans (report _ _)
  | panics i w hw e hh payload hr => exact { report (s.release i) _ with }
  | _ => exact { refl s with }

end Grows

theorem StepTo.size {m : Move} (h : StepTo s m s') : s'.size = s.size := by
  cases h with
  | accepts => exact size_setWorker ..
  | hands => exact size_hand ..
  | collapses => exact size_setWorker ..
  | _ => rfl

theorem size_run {moves : List Move} (h : s.run moves = some s') : s'.size = s.size :=
  run_induction (fun _ _ _ _ hsize hs => hs.size.trans hsize) rfl h

/-! ## What holds at any time -/

structure Sound (s : Relay) : Prop where
  hears : s.stage ≠ .ended → s.feed.bus.Hears s.rx s.published s.position
  position_le : s.position ≤ s.published.length
  /-- The listener closes only when it is told to. -/
  unclosed : s.closing = false → s.stage = .listening
  /-- The event at hand is the last one taken, and the listener has not finished. -/
  holding : ∀ e i, s.offering = some (e, i) →
    s.stage.isTaking = true ∧ ∃ p, s.taken.getLast? = some (e, p)
  /-- Once the listener has ended nothing is handed over. -/
  quiet : s.stage = .ended → s.idle = true

namespace Sound

theorem start (next capacity : Nat) (subscribers : List Subscriber) :
    (Relay.start next capacity subscribers).Sound where
  hears _ := Bus.hears_subscribe_new capacity
  position_le := Nat.le_refl 0
  unclosed _ := rfl
  holding _ _ h := by cases h
  quiet h := by cases h

theorem queue_eq_nil (h : s.Sound) (hs : s.stage = .ended) {i : Nat} {w : Worker}
    (hw : s.audience.workers[i]? = some w) : w.queue = [] := by
  have hidle := h.quiet hs
  simp only [idle, Audience.isBusy, Bool.and_eq_true, Bool.not_eq_true', List.any_eq_false] at hidle
  simpa using hidle.1 w (List.mem_of_getElem? hw)

theorem handling_eq_none (h : s.Sound) (hs : s.stage = .ended) {i : Nat} {x : Option Stamped}
    (hx : s.handling[i]? = some x) : x = none := by
  have hidle := h.quiet hs
  simp only [idle, Bool.and_eq_true, List.all_eq_true, Option.isNone_iff_eq_none] at hidle
  exact hidle.2 x (List.mem_of_getElem? hx)

theorem not_ended_of_offering (h : s.Sound) {e : Stamped} {i : Nat}
    (ho : s.offering = some (e, i)) : s.stage ≠ .ended :=
  Stage.not_ended (h.holding e i ho).1

theorem offering_eq_none (h : s.Sound) (hs : s.stage.isTaking = false) : s.offering = none := by
  cases ho : s.offering with
  | none => rfl
  | some x => cases hs.symm.trans (h.holding x.1 x.2 ho).1

theorem report (h : s.Sound) (hs : s.stage ≠ .ended) (e : Event) : (s.report e).Sound where
  hears _ := (h.hears hs).publish _
  position_le := Nat.le_trans h.position_le (by simp [Relay.report])
  unclosed := h.unclosed
  holding := h.holding
  quiet hs' := absurd hs' hs

theorem decline (h : s.Sound) {e : Stamped} {i : Nat} (ho : s.offering = some (e, i)) :
    ((s.advance e i).decline i e).Sound := by
  refine { h with holding := fun e' i' he => ?_ }
  cases he
  exact h.holding e i ho

theorem step {m : Move} (h : s.Sound) (hs : StepTo s m s') : s'.Sound := by
  have nothing {t : Relay} (ho : t.offering = none) : ∀ e i, t.offering = some (e, i) →
      t.stage.isTaking = true ∧ ∃ p, t.taken.getLast? = some (e, p) := by
    intro e i he
    cases ho.symm.trans he
  cases hs with
  | publishes next e =>
    refine { h with hears := fun hs => (h.hears hs).publish e, position_le := ?_ }
    exact Nat.le_trans h.position_le (by simp [send])
  | aside m hp ho bus hbus =>
    refine { h with hears := fun hs => (h.hears hs).congr (hbus ?_) }
    exact (List.getElem?_eq_some_iff.mp (h.hears hs).cursor).1
  | closes => exact { h with unclosed := fun hc => by cases hc }
  | drains hc hs ho =>
    have hears := h.hears (by rw [hs]; decide)
    refine ⟨fun _ => hears, h.position_le, fun hopen => ?_, nothing ho, fun hs => by cases hs⟩
    cases hc.symm.trans hopen
  | holds ho hs e bus hr =>
    have hne := Stage.not_ended hs
    obtain ⟨-, -, hears⟩ := (h.hears hne).receive_value hr
    refine ⟨fun _ => hears, hears.next_le, h.unclosed, fun e' i he => ?_, fun hs => absurd hs hne⟩
    cases he
    exact ⟨hs, s.position, List.getLast?_concat⟩
  | skips ho hs n bus hr =>
    have hears := ((h.hears (by rw [hs]; decide)).receive_lagged hr).2
    exact { h with hears := fun _ => hears, position_le := hears.next_le }
  | halts ho hs n bus hr =>
    have hears := h.hears (by rw [hs]; decide)
    refine ⟨fun _ => hears, hears.next_le, fun hopen => ?_, nothing ho, fun hs => by cases hs⟩
    rw [h.unclosed hopen] at hs
    cases hs
  | empties ho hs hv hl =>
    have hears := h.hears (by rw [hs]; decide)
    refine ⟨fun _ => hears, hears.next_le, fun hopen => ?_, nothing ho, fun hs => by cases hs⟩
    rw [h.unclosed hopen] at hs
    cases hs
  | accepts e i ho w hw ha =>
    have hne := h.not_ended_of_offering ho
    refine ⟨h.hears, h.position_le, h.unclosed, fun e' i' he => ?_, fun hs => absurd hs hne⟩
    cases he
    exact h.holding e i ho
  | declines e i ho w hw hover => exact h.decline ho
  | refuses e i ho w hw hover reason =>
    exact (h.decline ho).report (h.not_ended_of_offering ho) _
  | offers e i ho hi =>
    exact { h with holding := nothing rfl }
  | hands i w hw e rest hq hh =>
    refine { h with quiet := fun hs => ?_ }
    rw [h.queue_eq_nil hs hw] at hq
    cases hq
  | handles i e hh =>
    exact { h with quiet := fun hs => by cases h.handling_eq_none hs hh }
  | panics i w hw e hh payload hr =>
    have hne : s.stage ≠ .ended := fun hs => by cases h.handling_eq_none hs hh
    have hfree : (s.release i).Sound := { h with quiet := fun hs => absurd hs hne }
    exact hfree.report hne _
  | collapses i w hw e hh =>
    exact { h with quiet := fun hs => by cases h.handling_eq_none hs hh }
  | finishes hs hi =>
    have ho : s.offering = none := h.offering_eq_none (by rw [hs]; rfl)
    refine ⟨fun he => absurd rfl he, h.position_le, fun hopen => ?_, nothing ho, fun _ => hi⟩
    cases (h.unclosed hopen).symm.trans hs

/-- Once the listener has ended nothing happens to the subscribers. -/
theorem unmoved {m : Move} (h : s.Sound) (he : s.stage = .ended) (hs : StepTo s m s') :
    s'.stage = .ended ∧ s'.audience = s.audience := by
  cases hs with
  | drains hc hs ho => cases he.symm.trans hs
  | holds ho hs e bus hr => exact absurd he (Stage.not_ended hs)
  | skips ho hs n bus hr => cases he.symm.trans hs
  | halts ho hs n bus hr => cases he.symm.trans hs
  | empties ho hs hv hl => cases he.symm.trans hs
  | accepts e i ho w hw ha => exact absurd he (h.not_ended_of_offering ho)
  | declines e i ho w hw hover => exact absurd he (h.not_ended_of_offering ho)
  | refuses e i ho w hw hover reason => exact absurd he (h.not_ended_of_offering ho)
  | hands i w hw e rest hq hh =>
    rw [h.queue_eq_nil he hw] at hq
    cases hq
  | collapses i w hw e hh => cases h.handling_eq_none he hh
  | finishes hs hi => exact ⟨rfl, rfl⟩
  | _ => exact ⟨he, rfl⟩

end Sound

theorem sound_run (h : s.Sound) {moves : List Move} (hr : s.run moves = some s') : s'.Sound :=
  run_induction (fun _ _ _ _ h hs => h.step hs) h hr

theorem unmoved_run (h : s.Sound) (he : s.stage = .ended) {moves : List Move}
    (hr : s.run moves = some s') : s'.audience = s.audience := by
  refine (run_induction (I := fun t => t.Sound ∧ t.stage = .ended ∧ t.audience = s.audience)
    (fun m _ t t' hi hs => ?_) ⟨h, he, rfl⟩ hr).2.2
  obtain ⟨hsound, hended, hsame⟩ := hi
  obtain ⟨hended', hsame'⟩ := hsound.unmoved hended hs
  exact ⟨hsound.step hs, hended', hsame'.trans hsame⟩

/-- A gate runs until it is told to shut down for the first time, in the state
`s₁`, and on until the listener has ended, in the state `s₂`. -/
structure ShutsDown (s : Relay) (before after : List Move) (s₁ s₂ : Relay) : Prop where
  run_before : s.run before = some s₁
  first : .shutdown ∉ before
  run_after : s₁.run (.shutdown :: after) = some s₂
  ended : s₂.stage = .ended

/-- The listener still listens when the gate is told to shut down. -/
theorem ShutsDown.listening {next capacity : Nat} {subscribers : List Subscriber}
    {before after : List Move} {s₁ s₂ : Relay}
    (h : (start next capacity subscribers).ShutsDown before after s₁ s₂) :
    s₁.stage = .listening := by
  refine (sound_run (Sound.start next capacity subscribers) h.run_before).unclosed ?_
  refine run_induction (I := fun t => t.closing = false) (fun m hm t t' hc hs => ?_) rfl
    h.run_before
  cases hs with
  | closes => exact absurd hm h.first
  | _ => exact hc

end Relay
end SegmentGate
