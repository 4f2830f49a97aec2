import SegmentGate.Service.Deployment
/-!
# Performing calls

A call of a service runs through its steps without interruption, unless the store call it comes to
is one that never finishes: then it is given up there. Signals are delivered at the end of the call;
the scripts they start run at once, as calls within the call.
-/
namespace SegmentGate.Deployment

/-- Computations on a deployment. -/
abbrev Run := StateM Deployment

/-- A call of the shared store that does not finish. -/
inductive Stall where
  | load
  | save
  deriving DecidableEq, Repr

/-- How service `i` reaches executions, given how it performs the calls of a script. -/
def host (i : Nat) (perform : Action → Run Answer) : Host Run Capability :=
  let script (actions : List Action) : Run Unit := actions.forM fun a => do
    let answer ← perform a
    modify (·.notice (.nested answer))
  { publish := fun e => modify (·.send i e)
    report := fun e => modify (·.publish i e)
    proceed := fun c =>
      match c with
      | .channel id => modify (·.modifyChannel id Channel.proceed)
      | .scripted token b => do
        modify (·.notice (.proceed token))
        script b.onProceed
    abort := fun c cause =>
      match c with
      | .channel id => do
        let d ← get
        let (ch, result) := (d.channels[id]?.getD .fresh).abort cause
        set (d.modifyChannel id fun _ => ch)
        return result
      | .scripted token b => do
        modify (·.notice (.abort token cause))
        script b.onAbort
        return match b.failure with
          | none => .ok ()
          | some e => .error e
    resolve := fun job token => do
      match (← get).resolver? i with
      | none => return none
      | some known =>
        let found := known.find? token
        modify (·.notice (.resolve token job found.isSome))
        return found.map (.scripted token) }

/-- One step of a call of service `i`; the phase after it. -/
def advance (h : Host Run Capability) (i : Nat) (r : Request Capability)
    (phase : Call.Phase Capability) (input : Call.Input Capability) :
    Run (Call.Phase Capability) := do
  let d ← get
  match d.services[i]? with
  | none => return .dropped
  | some s =>
    match Call.step d.storeName r ⟨d.next, s.state, phase⟩ input with
    | none => return .dropped
    | some (after, out) =>
      set ({ d with next := after.next }.modifyService i fun s => { s with state := after.gate })
      out.forM (letOut h)
      return after.phase

/-- A service comes to a call of its store and finds it stalled. The stores that are not shared
always finish. -/
def isStalled (d : Deployment) (stall : Option Stall) (call : Stall) : Bool :=
  d.storeKind = .shared && stall = some call

/-- The input for a call that is in the store: the store's answer, or the end of a call that would
wait for ever. -/
def storeInput (i : Nat) (stall : Option Stall) (phase : Call.Phase Capability) :
    Run (Call.Input Capability) := do
  let d ← get
  match phase with
  | .loading => return if d.isStalled stall .load then .drop else .loaded (d.load i)
  | _ =>
    if d.isStalled stall .save then return .drop
    else
      let table := ((d.services[i]?.bind fun s => s.state.table).getD {})
      let (d, result) := d.save i table
      set d
      return .saved result

/-- A whole call of service `i`; no reply if it was given up. -/
def request (h : Host Run Capability) (i : Nat) (stall : Option Stall) (r : Request Capability) :
    Run (Option (Reply Capability)) := do
  let phase ← advance h i r .waiting .lock
  let phase ← match phase with
    | .loading => do advance h i r phase (← storeInput i stall phase)
    | _ => pure phase
  let phase ← match phase with
    | .saving .. => do advance h i r phase (← storeInput i stall phase)
    | _ => pure phase
  match phase with
  | .finished reply => return some reply
  | _ => return none

/-- The request that an action makes, with the capability of an execution that enters. -/
def requestOf : Action → Run (Except GateError (Request Capability))
  | .enter e onProceed onAbort =>
    match e.target with
    | .error err => return .error err
    | .ok target => do
      let capability ← match e.kind with
        | .channel => modifyGet fun d => (d.openChannel e.token).swap
        | .scripted failure => pure (.scripted e.token { failure, onProceed, onAbort })
      return .ok (.enter e.job ⟨e.ordinal, e.token, some capability⟩ target)
  | .exit job o => return .ok (.exit job o)
  | .snapshot => return .ok .snapshot
  | .segment job name => return .ok (.segment job name)

/-- Performs an action on service `i`, with calls within calls down to depth `depth`. -/
def performWithin : Nat → Nat → Option Stall → Action → Run Answer
  | 0, _, _, _ => return .dropped
  | depth + 1, i, stall, a => do
    match ← requestOf a with
    | .error e => return .rejected e
    | .ok r =>
      match ← request (host i (performWithin depth i none)) i stall r with
      | some reply => return .replied reply
      | none => return .dropped

/-- No call leads to calls nested deeper than this: each of them is in the script of an execution
that is signalled once, be it live, resolved, or entering. -/
def depthBound (d : Deployment) (i : Nat) (a : Action) : Nat :=
  let waiters := match d.services[i]?.bind fun s => s.state.table with
    | some t => t.waiters
    | none =>
      match d.load i with
      | .ok (some t) => t.waiters
      | _ => []
  let known := ((d.resolver? i).map Resolver.size).getD 0
  waiters.foldl (fun n w => n + (w.live.map Capability.size).getD known) (a.size + 1)

/-- Performs an action on service `i`. -/
def perform (i : Nat) (stall : Option Stall) (a : Action) : Run Answer := do
  performWithin (depthBound (← get) i a) i stall a

end SegmentGate.Deployment
