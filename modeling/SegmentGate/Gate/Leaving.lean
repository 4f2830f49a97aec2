import SegmentGate.Gate.Decision
/-!
# Leaving segments

A holder that leaves a segment hands its place to the waiter, if there is one. `exit` takes a
finished execution out of all segments of its job, from the seats too, so that nobody is promoted
who has finished.
-/
namespace SegmentGate

variable {κ : Type}

/-- Changes every segment of a job, in the order of their names. -/
def JobSegments.forEach (f : String → Segment κ → Segment κ × Consequences κ)
    (segments : JobSegments κ) : JobSegments κ × Consequences κ :=
  (segments.mapValues fun name s => (f name s).1,
    Consequences.join (segments.entries.map fun e => (f e.1 e.2).2))

/-- Takes `o` out of the segment if it holds it, and promotes the waiter (`vacate`). -/
def departFrom (job : String) (o : Ordinal) (name : String) (s : Segment κ) :
    Segment κ × Consequences κ :=
  if s.holds o then
    (s.depart o, .released job name o ++ match s.waiting with
      | some w => .promoted job name w o
      | none => ∅)
  else (s, ∅)

/-- Takes `o` out of the segment, be it as a holder or as the waiter. -/
def leave (job : String) (o : Ordinal) (name : String) (s : Segment κ) :
    Segment κ × Consequences κ :=
  if s.holds o then departFrom job o name s
  else if s.waitingOrdinal = some o then ({ s with waiting := none }, .seatCleared job name o)
  else (s, ∅)

/-- Takes the finished `o` out of all segments of its job. The answer is the number of segments it
held. -/
def exit (t : Table κ) (job : String) (o : Ordinal) : Decision κ Nat :=
  match t.job? job with
  | none => ⟨t, 0, ∅⟩
  | some segments =>
    let (after, consequences) := segments.forEach (leave job o)
    ⟨t.putJob job after, segments.entries.countP fun e => e.2.holds o, consequences⟩

end SegmentGate
