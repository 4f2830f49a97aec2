import SegmentGate.Gate.Leaving
import SegmentGate.Segment.Target
/-!
# Entering a segment

A segment has one waiting seat, and the newest contender gets it.

* Seat empty: the incoming execution contends.
* Seat taken by an older execution: that one is aborted and the incoming one contends.
* Seat taken by a newer execution: the incoming one is aborted and the seated one contends, for the
  limit of the incoming request may just have made room.
* Seat taken by the incoming execution itself: the call is refused.

Whoever contends first leaves all other segments of the job. It enters if there is room or if it
holds the segment already; otherwise it takes the seat.
-/
namespace SegmentGate

/-- What happened to the execution that called. -/
inductive Admission where
  | admitted
  | parked
  /-- A newer execution had the seat; this one is aborted. -/
  | superseded
  deriving DecidableEq, Repr

variable {κ : Type}

/-- The end of a conflict about the seat. -/
inductive Contest (κ : Type) where
  /-- The incoming execution is the seated one. -/
  | same
  /-- The `contender` goes on, and the `loser` is aborted. -/
  | won (contender : Waiter κ) (loser : Option (Waiter κ))

def contest (seated : Option (Waiter κ)) (incoming : Waiter κ) : Contest κ :=
  match seated with
  | none => .won incoming none
  | some s =>
    if s.ordinal = incoming.ordinal then .same
    else if s.ordinal.toNat < incoming.ordinal.toNat then .won incoming (some s)
    else .won s (some incoming)

/-- Takes `o` out of every segment of the job but `except` (`release_siblings`). Its seats in them
stay. -/
def leaveOthers (job except : String) (o : Ordinal) (segments : JobSegments κ) :
    JobSegments κ × Consequences κ :=
  segments.forEach fun name s => if name = except then (s, ∅) else departFrom job o name s

/-- The contender enters the segment or takes its seat. -/
def place (job name : String) (contender : Waiter κ) (s : Segment κ) :
    Segment κ × Admission × Consequences κ :=
  if s.hasRoom || s.holds contender.ordinal then
    (s.grant contender.ordinal, .admitted, .admitted job name contender)
  else (s.park contender, .parked, .parked job name contender)

/-- An execution asks to enter a segment. -/
def enter (t : Table κ) (job : String) (incoming : Waiter κ) (target : Target) :
    Decision κ (Except GateError Admission) :=
  let name := target.name
  let s := { t.segment job name with limit := target.limit }
  match contest s.waiting incoming with
  | .same =>
    ⟨t.put job name s, .error (.reentered job name incoming.ordinal),
      .reentered job name incoming.ordinal⟩
  | .won contender loser =>
    let displaced := match loser with
      | some w => .superseded job name w contender.ordinal
      | none => ∅
    let (others, left) := leaveOthers job name contender.ordinal (t.job job)
    let (after, admission, placed) := place job name contender { s with waiting := none }
    ⟨t.putJob job (others.insert name after),
      .ok (if contender.ordinal = incoming.ordinal then admission else .superseded),
      displaced ++ left ++ placed⟩

end SegmentGate
