import SegmentGate.Error
/-!
# Completion reports

Whoever runs executions reports the finished ones to a bounded queue, and the loop of the gate makes
an exit of each report. A caller who finds the queue full may be told so, or may wait for a slot:
the slots that become free are promised to those who wait, in the order they came, and count as
taken from then on. Only one loop ever takes reports. When it ends, the queue is closed for good and
what was queued is lost.
-/
namespace SegmentGate

/-- An execution has finished (`Completed`). -/
structure Report where
  job : String
  ordinal : Ordinal
  deriving DecidableEq, Repr

inductive LoopPhase where
  | unstarted
  | running
  | ended
  deriving DecidableEq, Repr

structure ReportQueue where
  capacity : Nat
  /-- The reports to be taken, oldest first. -/
  queued : List Report := []
  /-- The reports of waiting callers that were promised a slot. -/
  promised : List Report := []
  /-- The reports of callers that wait for a slot, longest waiting first. -/
  blocked : List Report := []
  loop : LoopPhase := .unstarted
  /-- Nothing is accepted any more. -/
  closed : Bool := false
  deriving DecidableEq, Repr

namespace ReportQueue

def new (capacity : Nat) : ReportQueue := { capacity := max 1 capacity }

/-- The slots that are taken or promised. -/
def load (q : ReportQueue) : Nat := q.queued.length + q.promised.length

/-- A report that does not wait for a slot (`try_completed`). -/
def tryReport (q : ReportQueue) (r : Report) : Except GateError ReportQueue :=
  if q.closed then .error .closed
  else if q.capacity ≤ q.load then .error .full
  else .ok { q with queued := q.queued ++ [r] }

/-- What becomes of a report that would wait for a slot. -/
inductive Reported where
  | accepted
  | closed
  | blocked
  deriving DecidableEq, Repr

/-- A report that waits for a slot if it must (`completed`). -/
def report (q : ReportQueue) (r : Report) : ReportQueue × Reported :=
  match q.tryReport r with
  | .ok q => (q, .accepted)
  | .error .closed => (q, .closed)
  | .error _ => ({ q with blocked := q.blocked ++ [r] }, .blocked)

/-- The free slots go to those who wait. -/
def promise (q : ReportQueue) : ReportQueue :=
  let free := q.capacity - q.load
  { q with promised := q.promised ++ q.blocked.take free, blocked := q.blocked.drop free }

/-- The caller in place `k` of those who were promised a slot uses it. -/
def redeem (q : ReportQueue) (k : Nat) : Option (Report × ReportQueue) :=
  match q.promised[k]? with
  | some r => some (r, { q with promised := q.promised.eraseIdx k, queued := q.queued ++ [r] })
  | none => none

/-- The caller in place `k` of those who wait goes away. -/
def withdraw (q : ReportQueue) (k : Nat) : ReportQueue :=
  { q with blocked := q.blocked.eraseIdx k }

/-- The caller in place `k` of those who were promised a slot goes away. -/
def forgo (q : ReportQueue) (k : Nat) : ReportQueue :=
  { q with promised := q.promised.eraseIdx k }.promise

/-- A loop starts, unless one was started before (`run`). -/
def start (q : ReportQueue) : Option ReportQueue :=
  if q.loop = .unstarted then some { q with loop := .running } else none

/-- The running loop takes the oldest report. -/
def take (q : ReportQueue) : Option (Report × ReportQueue) :=
  if q.loop = .running then
    match q.queued with
    | r :: rest => some (r, { q with queued := rest }.promise)
    | [] => none
  else none

/-- Nobody will take reports any more. -/
def close (q : ReportQueue) : ReportQueue :=
  { q with queued := [], promised := [], blocked := [], closed := true }

/-- The running loop ends. -/
def stop (q : ReportQueue) : ReportQueue :=
  if q.loop = .running then { q.close with loop := .ended } else q

end ReportQueue
end SegmentGate
