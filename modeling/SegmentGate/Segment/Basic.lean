import SegmentGate.Segment.Limit
import SegmentGate.Data.SortedSet
import SegmentGate.Suspension.Basic
/-!
# Segments

A segment is a counting semaphore with a single waiting seat: the executions that hold it, the limit
on their number, and the one execution that waits for it. The live capability of a waiter, of type
`κ`, is known only to the process that parked it; after a restart there is only its token.
-/
namespace SegmentGate

/-- An execution that waits, or asks to enter. -/
structure Waiter (κ : Type) where
  ordinal : Ordinal
  token : Token
  /-- The capability to resume the execution (`resume`), if this process knows it. -/
  live : Option κ
  deriving DecidableEq

namespace Waiter

variable {κ : Type}

/-- The waiter as another process sees it. -/
def forget (w : Waiter κ) : Waiter κ := { w with live := none }

/-- The waiter as it is shown to a developer; whether it is live, but not its capability. -/
def debug (w : Waiter κ) : String :=
  "Waiter \x7b ordinal: " ++ w.ordinal.text ++ ", token: ResumeToken(" ++ Text.quote w.token.text ++
    "), live: " ++ (if w.live.isSome then "true" else "false") ++ " \x7d"

end Waiter

structure Segment (κ : Type) where
  /-- The executions in the segment. -/
  holding : SortedSet Ordinal := ∅
  limit : Limit := .unbounded
  /-- The execution in the waiting seat. -/
  waiting : Option (Waiter κ) := none
  deriving DecidableEq

namespace Segment

variable {κ : Type}

instance : Inhabited (Segment κ) := ⟨{}⟩

def waitingOrdinal (s : Segment κ) : Option Ordinal := s.waiting.map Waiter.ordinal

/-- One more holder fits under the limit. -/
def hasRoom (s : Segment κ) : Bool := s.limit.admits s.holding.size

def holds (s : Segment κ) (o : Ordinal) : Bool := s.holding.contains o

/-- Makes `o` a holder and empties the seat (`admit`). -/
def grant (s : Segment κ) (o : Ordinal) : Segment κ :=
  { s with holding := s.holding.insert o, waiting := none }

/-- Gives the seat to `w`. -/
def park (s : Segment κ) (w : Waiter κ) : Segment κ := { s with waiting := some w }

/-- Lets `o` leave (`release`); the waiter, if there is one, takes its place (`promote`). The limit
is not asked: a segment whose limit was lowered keeps its number of holders rather than starve its
waiter. -/
def depart (s : Segment κ) (o : Ordinal) : Segment κ :=
  let s := { s with holding := s.holding.erase o }
  match s.waiting with
  | some w => s.grant w.ordinal
  | none => s

/-- The segment as another process sees it. -/
def forget (s : Segment κ) : Segment κ := { s with waiting := s.waiting.map Waiter.forget }

@[simp] theorem holds_iff {s : Segment κ} {o : Ordinal} : s.holds o = true ↔ o ∈ s.holding := by
  simp [holds]

theorem waitingOrdinal_eq_some_iff {s : Segment κ} {o : Ordinal} :
    s.waitingOrdinal = some o ↔ ∃ w, s.waiting = some w ∧ w.ordinal = o := by
  simp [waitingOrdinal]

theorem depart_of_waiting_none {s : Segment κ} (h : s.waiting = none) (o : Ordinal) :
    s.depart o = { s with holding := s.holding.erase o } := by
  simp [depart, h]

theorem depart_of_waiting {s : Segment κ} {w : Waiter κ} (h : s.waiting = some w) (o : Ordinal) :
    s.depart o =
      { s with holding := (s.holding.erase o).insert w.ordinal, waiting := none } := by
  simp [depart, h, grant]

@[simp] theorem waiting_depart (s : Segment κ) (o : Ordinal) : (s.depart o).waiting = none := by
  cases h : s.waiting with
  | none => simp [depart_of_waiting_none h, h]
  | some w => simp [depart_of_waiting h]

@[simp] theorem limit_depart (s : Segment κ) (o : Ordinal) : (s.depart o).limit = s.limit := by
  cases h : s.waiting with
  | none => simp [depart_of_waiting_none h]
  | some w => simp [depart_of_waiting h]

/-- After a departure the holders are the old ones without the leaver, and the waiter. -/
theorem mem_holding_depart {s : Segment κ} {o x : Ordinal} :
    x ∈ (s.depart o).holding ↔ s.waitingOrdinal = some x ∨ (x ≠ o ∧ x ∈ s.holding) := by
  cases h : s.waiting with
  | none => simp [depart_of_waiting_none h, waitingOrdinal, h]
  | some w => simp [depart_of_waiting h, waitingOrdinal, h, eq_comm]

end Segment
end SegmentGate
