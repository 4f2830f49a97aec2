import SegmentGate.Gate.Call
/-!
# Delivery

What a call produced goes out once the lock of the table is given up: first all its events, then its
signals in order. The capability of a signal is the live one if this process knows it, or else the
one that the resolver makes from the token. Nothing that goes wrong here stops what follows: a
signal for which there is no capability, and an abort that fails, become events.

`deliver` runs in any monad that can do what a `Host` says, so a resumed execution may call the gate
again in the middle of a delivery.
-/
namespace SegmentGate

/-- What a delivery needs from its surroundings. -/
structure Host (m : Type → Type) (κ : Type) where
  /-- Sends an event that has its number. -/
  publish : Stamped → m Unit
  /-- Makes a new event and sends it. -/
  report : Event → m Unit
  proceed : κ → m Unit
  abort : κ → Interruption → m (Except AbortError Unit)
  /-- A capability made from a token. -/
  resolve : String → Token → m (Option κ)

variable {m : Type → Type} {κ : Type}

/-- The signal could not be delivered: no capability is known. -/
def Event.resumeUnresolved (s : Signal κ) : Event :=
  { Event.about .resumeUnresolved s.job s.segment s.waiter.ordinal with
    reason := some s.waiter.token.text }

/-- The displaced execution could not be aborted. -/
def Event.cancelFailed (s : Signal κ) (displacer : Ordinal) (e : AbortError) : Event :=
  { Event.about .cancelFailed s.job s.segment s.waiter.ordinal with
    other := some displacer
    reason := some e.message }

variable [Monad m]

/-- The capability of a signal's execution (`capability`). -/
def capability? (h : Host m κ) (s : Signal κ) : m (Option κ) :=
  match s.waiter.live with
  | some c => pure (some c)
  | none => h.resolve s.job s.waiter.token

/-- Tells the execution its verdict; an abort may fail (`cancel`). -/
def signalWith (h : Host m κ) (s : Signal κ) (c : κ) : m Unit :=
  match s.verdict with
  | .proceed => h.proceed c
  | .abort displacer => do
    match ← h.abort c (.superseded s.job s.segment displacer) with
    | .ok () => pure ()
    | .error e => h.report (.cancelFailed s displacer e)

def deliverSignal (h : Host m κ) (s : Signal κ) : m Unit := do
  match ← capability? h s with
  | some c => signalWith h s c
  | none => h.report (.resumeUnresolved s)

/-- All that goes out after a decision (`dispatch`). -/
def deliver (h : Host m κ) (events : List Stamped) (signals : List (Signal κ)) : m Unit := do
  events.forM h.publish
  signals.forM (deliverSignal h)

/-- Lets out what a step of a call produced. -/
def letOut (h : Host m κ) : Call.Output κ → m Unit
  | .publish e => h.publish e
  | .unlock => pure ()
  | .deliver events signals => deliver h events signals

end SegmentGate
