import SegmentGate.Service.Perform
/-!
# Letting a deployment come to rest

Everything runs on one thread: a call of the gate is not interrupted, and the completion loops, the
listeners and the workers run between calls, until nothing moves any more.
-/
namespace SegmentGate.Deployment

/-- How many rounds listeners and workers are given. Only a subscriber that panics on the reports of
its own panics needs more, and would need them for ever. -/
def roundLimit : Nat := 1000

/-- The completion loop of service `i` turns up to `n` queued reports into exits. -/
def takeReports (i : Nat) : Nat → Run Unit
  | 0 => pure ()
  | n + 1 => do
    match (← get).services[i]?.bind fun s => s.reports.take with
    | none => pure ()
    | some (r, reports) =>
      modify (·.modifyService i fun s => { s with reports })
      let _ ← perform i none (.exit r.job r.ordinal)
      takeReports i n

/-- The completion loop of service `i` ends if it was told to, or else empties its queue. -/
def runLoop (i : Nat) : Run Unit := do
  let d ← get
  match d.services[i]? with
  | none => pure ()
  | some s =>
    if s.loopStop < d.stops then
      modify (·.modifyService i fun s => { s with reports := s.reports.stop })
    else takeReports i s.reports.queued.length

/-- Changes the listener of service `i`, if it has one. -/
def withListener (i : Nat) (f : Listener → Feed → Listener × Feed) : Run Unit := do
  let d ← get
  match d.services[i]?.bind Service.listener, d.feed? i with
  | some l, some feed =>
    let (l, feed) := f l feed
    set ((d.putFeed i feed).modifyService i fun s => { s with listener := some l })
  | _, _ => pure ()

/-- Loops, listeners and workers run until nothing moves. -/
def settle : Run Unit := do
  modify reap
  let services := List.range (← get).services.length
  services.forM runLoop
  services.forM fun i => withListener i (Listener.settle roundLimit)
  modify reap

end SegmentGate.Deployment
