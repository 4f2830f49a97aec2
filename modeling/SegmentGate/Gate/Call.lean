import SegmentGate.Gate.Entering
/-!
# Calls

A call of the gate runs in steps, and may be given up between any two of them: it waits for the lock
of the table, reads the table if this is the first call, decides, saves the table if the decision
changed it, gives up the lock, and delivers. `step` is one such step, on an input that says what the
surroundings did: gave the lock, answered for the store, or gave the call up.

A call that is given up before it decides leaves no trace. One that is given up while it saves has
decided: the table stays as decided, and its events and signals are delivered all the same. Delivery
always comes after the lock is given up. What is written to the log of the process is left out.
-/
namespace SegmentGate

variable {κ : Type}

/-- What a call asks the gate for. -/
inductive Request (κ : Type) where
  | enter (job : String) (incoming : Waiter κ) (target : Target)
  | exit (job : String) (o : Ordinal)
  | snapshot
  | segment (job name : String)

/-- What a call is answered. -/
inductive Reply (κ : Type) where
  | entered (result : Except GateError Admission)
  | exited (released : Nat)
  | snapshot (t : Table κ)
  | segment (s : Option (Segment κ))

namespace Request

/-- The job whose table is written. -/
def job : Request κ → String
  | .enter job _ _ => job
  | .exit job _ => job
  | .snapshot => ""
  | .segment job _ => job

/-- The decision of a call on the table it finds. -/
def decide (r : Request κ) (t : Table κ) : Decision κ (Reply κ) :=
  match r with
  | .enter job incoming target =>
    let d := SegmentGate.enter t job incoming target
    ⟨d.table, .entered d.answer, d.consequences⟩
  | .exit job o =>
    let d := SegmentGate.exit t job o
    ⟨d.table, .exited d.answer, d.consequences⟩
  | .snapshot => ⟨t, .snapshot t, ∅⟩
  | .segment job name => ⟨t, .segment (t.segment? job name), ∅⟩

end Request

/-- The state that the calls of one gate share. -/
structure GateState (κ : Type) where
  /-- The table, once a call has loaded it. -/
  table : Option (Table κ) := none
  locked : Bool := false

namespace Call

/-- Where a call stands between two steps. -/
inductive Phase (κ : Type) where
  /-- It waits for the lock. -/
  | waiting
  /-- It has the lock, and the store reads the table. -/
  | loading
  /-- It has the lock and has decided, and the store writes the table. -/
  | saving (reply : Reply κ) (events : List Stamped) (signals : List (Signal κ))
  | finished (reply : Reply κ)
  | dropped

structure State (κ : Type) where
  /-- The number of the next event made. -/
  next : Nat
  gate : GateState κ
  phase : Phase κ

/-- What the surroundings do for a call. -/
inductive Input (κ : Type) where
  | lock
  | loaded (r : Except StoreError (Option (Table κ)))
  | saved (r : Except StoreError Unit)
  | drop

/-- What a step lets out, in order. -/
inductive Output (κ : Type) where
  | publish (e : Stamped)
  | unlock
  | deliver (events : List Stamped) (signals : List (Signal κ))

/-- What became of an attempt to read the table (`load`): the table to go on with, and the event
that tells of it. -/
def loadedTable (store : String) :
    Except StoreError (Option (Table κ)) → Table κ × Option Event
  | .ok (some t) => (t, some { kind := .tableLoaded, reason := some store })
  | .ok none => ({}, none)
  | .error e => ({}, some { kind := .loadFailed, reason := some e.message })

/-- The table could not be saved (`persist`). -/
def persistFailed (job : String) (e : StoreError) : Event :=
  { kind := .persistFailed, job := some job, reason := some e.message }

/-- The lock is given up and the call is answered; then everything goes out. -/
def finish (s : State κ) (reply : Reply κ) (events : List Stamped) (signals : List (Signal κ)) :
    State κ × List (Output κ) :=
  ({ s with gate := { s.gate with locked := false }, phase := .finished reply },
    [.unlock, .deliver events signals])

/-- The call decides on the table `t`; its events get their numbers. -/
def decideOn (r : Request κ) (s : State κ) (t : Table κ) : State κ × List (Output κ) :=
  let d := r.decide t
  let events := Event.stampFrom s.next d.consequences.events
  let s := { s with
    next := s.next + events.length
    gate := { table := some d.table, locked := true } }
  if d.consequences.changed then
    ({ s with phase := .saving d.answer events d.consequences.signals }, [])
  else finish s d.answer events d.consequences.signals

/-- The number after `next` if an event is made, and the sending of that event. -/
def announce (s : State κ) : Option Event → State κ × List (Output κ)
  | none => (s, [])
  | some e => ({ s with next := s.next + 1 }, [.publish ⟨s.next, e⟩])

/-- One step of a call (`enter`, `exit`, `snapshot`, `segment`) on a store of that name; none if the
input does not fit the phase. -/
def step (store : String) (r : Request κ) (s : State κ) :
    Input κ → Option (State κ × List (Output κ))
  | .lock =>
    match s.phase with
    | .waiting =>
      if s.gate.locked then none
      else
        match s.gate.table with
        | some t => some (decideOn r s t)
        | none => some ({ s with gate := { s.gate with locked := true }, phase := .loading }, [])
    | _ => none
  | .loaded result =>
    match s.phase with
    | .loading =>
      let (t, event) := loadedTable store result
      let (s, announced) := announce s event
      let (s, out) := decideOn r s t
      some (s, announced ++ out)
    | _ => none
  | .saved result =>
    match s.phase with
    | .saving reply events signals =>
      let event := match result with
        | .ok () => none
        | .error e => some (persistFailed r.job e)
      let (s, announced) := announce s event
      let (s, out) := finish s reply events signals
      some (s, announced ++ out)
    | _ => none
  | .drop =>
    match s.phase with
    | .waiting => some ({ s with phase := .dropped }, [])
    | .loading =>
      some ({ s with gate := { s.gate with locked := false }, phase := .dropped }, [.unlock])
    | .saving _ events signals =>
      some ({ s with gate := { s.gate with locked := false }, phase := .dropped },
        [.unlock, .deliver events signals])
    | _ => none

end Call
end SegmentGate
