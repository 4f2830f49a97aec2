import SegmentGate.Settings
import SegmentGate.Fanout.Listener
import SegmentGate.Gate.ReportQueue
import SegmentGate.Suspension.Channel
import SegmentGate.Service.Execution
import SegmentGate.Snapshot.InFile
import SegmentGate.Snapshot.InMemory
/-!
# Deployments

A service is a gate in operation: its table, its bus, the listener for its subscribers, and its
completion queue. A deployment is a succession of services: at a restart a new one takes over and
finds what the store kept. An older one lives on as long as its completion loop runs. The deployment
also holds what outlives its services: the stores, the channels of suspended executions, and the
counter that numbers all events.
-/
namespace SegmentGate

structure Service where
  state : GateState Capability := {}
  bus : Bus Stamped
  listener : Option Listener := none
  reports : ReportQueue
  /-- The number of the stop order that ends the completion loop. -/
  loopStop : Nat := 0
  /-- The receiver that watches the bus from the start. -/
  watcher : Nat
  /-- The store of a service that was given none. -/
  ownStore : SnapshotMemory := {}
  /-- It was given the resolver of the deployment. -/
  resolves : Bool := false

/-- Where the services of a deployment keep their snapshots. -/
inductive StoreKind where
  /-- In one memory that outlives them. -/
  | shared
  /-- Each in a memory of its own. -/
  | own
  /-- In the file that the configuration names. -/
  | file
  deriving DecidableEq, Repr

structure Deployment where
  settings : Settings
  storeKind : StoreKind
  subscribers : List Subscriber := []
  /-- What the resolver knows by now, if there is one. Services that started without a resolver do
  not get it later. -/
  resolver : Option Resolver := none
  /-- The number of the next event made. -/
  next : Nat := 0
  shared : SnapshotMemory := {}
  /-- Why the shared store fails to read. -/
  loadFault : Option String := none
  /-- Why the shared store fails to write. -/
  saveFault : Option String := none
  disk : Disk := {}
  /-- All services there ever were, oldest first. -/
  services : List Service := []
  /-- The service in use. -/
  current : Option Nat := none
  /-- The service whose completion queue is in use, and the one before it. -/
  handle : Option Nat := none
  staleHandle : Option Nat := none
  /-- How many stop orders were given. -/
  stops : Nat := 0
  channels : List Channel := []
  /-- The channel that waits under a token. -/
  parked : SortedMap String Nat := ∅
  /-- What executions and the resolver noticed. -/
  notices : List Notice := []

namespace Deployment

def modifyService (d : Deployment) (i : Nat) (f : Service → Service) : Deployment :=
  { d with services := d.services.modify i f }

def modifyChannel (d : Deployment) (id : Nat) (f : Channel → Channel) : Deployment :=
  { d with channels := d.channels.modify id f }

def notice (d : Deployment) (n : Notice) : Deployment := { d with notices := d.notices ++ [n] }

/-- The bus of a service with the common counter. -/
def feed? (d : Deployment) (i : Nat) : Option Feed :=
  d.services[i]?.map fun s => ⟨d.next, s.bus⟩

def putFeed (d : Deployment) (i : Nat) (f : Feed) : Deployment :=
  { d with next := f.next }.modifyService i fun s => { s with bus := f.bus }

/-- Sends an event that has its number on the bus of a service. -/
def send (d : Deployment) (i : Nat) (e : Stamped) : Deployment :=
  d.modifyService i fun s => { s with bus := s.bus.publish e }

/-- Makes an event and sends it on the bus of a service. -/
def publish (d : Deployment) (i : Nat) (e : Event) : Deployment :=
  { d.send i ⟨d.next, e⟩ with next := d.next + 1 }

/-- The resolver of a service. -/
def resolver? (d : Deployment) (i : Nat) : Option Resolver := do
  let s ← d.services[i]?
  if s.resolves then d.resolver else none

/-! ## Services come and go -/

/-- A new service, with its subscribers and its watcher. -/
def newService (d : Deployment) : Service × Nat :=
  let f : Feed := ⟨d.next, Bus.new d.settings.busSize⟩
  let (listener, f) :=
    if d.subscribers.isEmpty then (none, f)
    else
      let (l, f) := Listener.start d.subscribers f
      (some l, f)
  let (watcher, bus) := f.bus.subscribe
  ({ bus, listener, watcher, reports := .new d.settings.reportQueueSize
     resolves := d.resolver.isSome }, f.next)

/-- A new service takes over. -/
def boot (d : Deployment) : Deployment :=
  let (s, next) := d.newService
  let i := d.services.length
  { d with
    services := d.services ++ [s]
    next
    current := some i
    handle := some i
    staleHandle := d.handle }

/-- Somebody still uses the service: its callers, or its own completion loop. -/
def inUse (d : Deployment) (i : Nat) (s : Service) : Bool :=
  d.current = some i || s.reports.loop = .running

/-- Services that nobody uses go away, with their tables and the capabilities in them. -/
def reap (d : Deployment) : Deployment :=
  { d with services := d.services.mapIdx fun i s =>
      if d.inUse i s then s else { s with state := {}, reports := s.reports.close } }

/-! ## Stores -/

/-- The directory of the snapshot file and of what lies beside it. -/
def stateDir (d : Deployment) : Path := d.settings.stateDir.getD ⟨[]⟩

def snapshotFile (d : Deployment) : SnapshotFile :=
  .inDirectory d.stateDir

/-- The name of the store, as events give it. -/
def storeName (d : Deployment) : String :=
  match d.storeKind with
  | .file => SnapshotFile.name
  | _ => SnapshotMemory.name

def load (d : Deployment) (i : Nat) : Except StoreError (Option (Table Capability)) :=
  match d.storeKind with
  | .shared =>
    match d.loadFault with
    | some cause => .error (.io cause)
    | none => d.shared.load
  | .own => ((d.services[i]?.map Service.ownStore).getD {}).load
  | .file => d.snapshotFile.load d.disk

def save (d : Deployment) (i : Nat) (t : Table Capability) :
    Deployment × Except StoreError Unit :=
  match d.storeKind with
  | .shared =>
    match d.saveFault with
    | some cause => (d, .error (.io cause))
    | none => ({ d with shared := d.shared.save t }, .ok ())
  | .own => (d.modifyService i fun s => { s with ownStore := s.ownStore.save t }, .ok ())
  | .file =>
    let (disk, r) := d.snapshotFile.save t d.disk
    ({ d with disk }, r)

/-! ## Channels -/

/-- Some table still holds the signal side of a channel. -/
def holdsSignal (d : Deployment) (id : Nat) : Bool :=
  d.services.any fun s =>
    match s.state.table with
    | none => false
    | some t => t.waiters.any fun w =>
      match w.live with
      | some (.channel id') => id' = id
      | _ => false

/-- The channel that waits under a token, as its execution finds it. -/
def channel? (d : Deployment) (token : String) : Option Channel := do
  let id ← d.parked.get? token
  let c ← d.channels[id]?
  return if d.holdsSignal id then c else c.dropSignal

/-- A new channel waits under a token; the one that waited there before is dropped. -/
def openChannel (d : Deployment) (token : Token) : Deployment × Capability :=
  let d := match d.parked.get? token.text with
    | some old => d.modifyChannel old Channel.dropParked
    | none => d
  let id := d.channels.length
  ({ d with channels := d.channels ++ [.fresh], parked := d.parked.insert token.text id },
    .channel id)

def dropParked (d : Deployment) (token : String) : Deployment × Bool :=
  match d.parked.get? token with
  | some id => ({ d.modifyChannel id Channel.dropParked with parked := d.parked.erase token }, true)
  | none => (d, false)

end Deployment
end SegmentGate
