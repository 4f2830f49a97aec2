import SegmentGate.Service.Schedule
/-!
# Operating a deployment

What can be done to a deployment from outside, and what is observed of each step: the result, the
table, what executions noticed, what the watcher of the newest service received, and what its
subscribers saw and printed.
-/
namespace SegmentGate

inductive Operation where
  /-- A call of the service in use; if the shared store stalls, its call never finishes. -/
  | act (a : Action) (stall : Option Deployment.Stall)
  /-- A new service takes over; the resolver then knows what is given, if anything is. -/
  | restart (resolver : Option Resolver)
  /-- The service in use is given up. -/
  | dropGate
  /-- The completion loop of the service in use is started. -/
  | run
  /-- All completion loops that run are told to end. -/
  | stop
  /-- A finished execution is reported through the handle of the newest service or the one before
  it. A report that waits for a slot gives up at once. -/
  | report (r : Report) (waits stale : Bool)
  /-- The subscribers of the service in use are shut down, after a call if one is given. -/
  | shutdown (after : Option (Action × Option Deployment.Stall))
  /-- The execution that waits under a token looks at its channel. -/
  | wait (token : String)
  | dropParked (token : String)
  /-- From now on the shared store fails as given, or works. -/
  | fail (load save : Option String)
  | showFile (name : String)
  | putFile (name text : String)
  | makeDirectory (name : String)
  | remove (name : String)
  /-- A file takes the place of the state directory. -/
  | block

inductive Result where
  | done
  | answered (a : Answer)
  | reported (r : Except GateError Unit)
  /-- The report would have to wait for a slot. -/
  | pending
  | noHandle
  /-- What a waiting execution found, and whether it is to give up; none if nobody waits. -/
  | waited (c : Option Channel)
  | existed (b : Bool)
  | content (text : Option String)

namespace Deployment

/-! ## Files -/

/-- The path of a file in the state directory. -/
def statePath (d : Deployment) (name : String) : Path :=
  d.stateDir.join (.ofText name)

/-- The content of a file, if there is one and it is a text. -/
def readText (d : Deployment) (name : String) : Option String :=
  match d.disk.read (d.statePath name) with
  | .ok bytes => String.fromUTF8? bytes
  | .error _ => none

/-- Takes steps on the disk; what cannot be done is left. -/
def onDisk (d : Deployment) (steps : List Disk.Step) : Deployment :=
  { d with disk := (d.disk.run steps).1 }

/-! ## Operations -/

/-- Reports a finished execution through the handle of service `i`. -/
def reportTo (i : Nat) (r : Report) (waits : Bool) : Run Result := do
  let d ← get
  match d.services[i]? with
  | none => return .noHandle
  | some s =>
    if waits then
      match s.reports.report r with
      | (c, .accepted) =>
        set (d.modifyService i fun s => { s with reports := c })
        return .reported (.ok ())
      | (_, .closed) => return .reported (.error .closed)
      | (c, .blocked) =>
        set (d.modifyService i fun s => { s with reports := c.withdraw (c.blocked.length - 1) })
        return .pending
    else
      match s.reports.tryReport r with
      | .ok c =>
        set (d.modifyService i fun s => { s with reports := c })
        return .reported (.ok ())
      | .error e => return .reported (.error e)

/-- A call of the service in use. -/
def act (a : Action) (stall : Option Stall) : Run Result := do
  match (← get).current with
  | some i => return .answered (← perform i stall a)
  | none => return .answered .noGate

/-- Does something to the service in use, if there is one. -/
def onCurrent (f : Nat → Run Unit) : Run Unit := do
  match (← get).current with
  | some i => f i
  | none => pure ()

def operate : Operation → Run Result
  | .act a stall => act a stall
  | .restart resolver => do
    modify fun d => { d with resolver := resolver.or d.resolver }.boot
    return .done
  | .dropGate => do
    modify fun d => { d with current := none }
    return .done
  | .run => do
    onCurrent fun i => do
      let d ← get
      match d.services[i]?.bind fun s => s.reports.start with
      | some reports => set (d.modifyService i fun s => { s with reports, loopStop := d.stops })
      | none => pure ()
    return .done
  | .stop => do
    modify fun d => { d with stops := d.stops + 1 }
    return .done
  | .report r waits stale => do
    let d ← get
    match if stale then d.staleHandle else d.handle with
    | some i => reportTo i r waits
    | none => return .noHandle
  | .shutdown after => do
    let result ← match after with
      | some (a, stall) => act a stall
      | none => pure .done
    onCurrent fun i => withListener i Listener.close
    return result
  | .wait token => do return .waited ((← get).channel? token)
  | .dropParked token => do
    let (d, existed) := (← get).dropParked token
    set d
    return .existed existed
  | .fail load save => do
    modify fun d => { d with loadFault := load, saveFault := save }
    return .done
  | .showFile name => do return .content ((← get).readText name)
  | .putFile name text => do
    modify fun d => d.onDisk (Disk.writeSteps (d.statePath name) text.toUTF8)
    return .done
  | .makeDirectory name => do
    modify fun d => { d with disk := d.disk.beDirectory (d.statePath name) }
    return .done
  | .remove name => do
    modify fun d => { d with disk := d.disk.remove (d.statePath name) }
    return .done
  | .block => do
    modify fun d =>
      { d with disk := d.disk.remove d.stateDir }.onDisk (Disk.writeSteps d.stateDir .empty)
    return .done

/-! ## Observed steps -/

structure Observed where
  result : Result
  /-- The table, if it was asked for and there is a service in use. -/
  table : Option (Table Capability)
  notices : List Notice
  events : List (Bus.Received Stamped)
  saves : Nat
  /-- What each subscriber of the newest service saw, in the order of declaration. -/
  seen : List (Subscriber × List Stamped)
  printed : String

/-- How many events the subscribers of each service were handed so far. -/
def handedCounts (d : Deployment) : List Nat :=
  d.services.map fun s => ((s.listener.map fun l => l.audience.handed.length).getD 0)

/-- What the subscribers of the newest service saw since `old` events were handed over. -/
def seenSince (d : Deployment) (old : List Nat) : List (Subscriber × List Stamped) :=
  let i := d.services.length - 1
  match d.services[i]?.bind Service.listener with
  | none => []
  | some l => l.audience.workers.zipIdx.map fun (w, k) =>
    (w.subscriber, l.audience.seen k (old[i]?.getD 0))

/-- What all subscribers printed since then. -/
def printedSince (d : Deployment) (old : List Nat) : String :=
  String.join (d.services.zipIdx.map fun (s, i) =>
    match s.listener with
    | some l => l.audience.printed (old[i]?.getD 0)
    | none => "")

/-- What the watcher of the newest service received since it last looked. -/
def watch : Run (List (Bus.Received Stamped)) := do
  let d ← get
  let i := d.services.length - 1
  match d.services[i]? with
  | none => return []
  | some s =>
    let (received, bus) := s.bus.receiveAll s.watcher
    set (d.modifyService i fun s => { s with bus })
    return received

/-- The table of the service in use, which is loaded if it was not yet. -/
def peek : Run (Option (Table Capability)) := do
  match (← get).current with
  | none => return none
  | some i =>
    let answer ← perform i none .snapshot
    settle
    match answer with
    | .replied (.snapshot t) => return some t
    | _ => return none

/-- One operation, and what is observed of it once everything came to rest. -/
def observe (peeks : Bool) (o : Operation) : Run Observed := do
  let old := (← get).handedCounts
  modify fun d => { d with notices := [] }
  let result ← operate o
  settle
  let table ← if peeks then peek else pure none
  let events ← watch
  let d ← get
  return { result, table, notices := d.notices, events, saves := d.shared.saves,
           seen := d.seenSince old, printed := d.printedSince old }

end Deployment
end SegmentGate
