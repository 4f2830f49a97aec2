import SegmentGate.Event.Basic
import SegmentGate.Table.Basic
/-!
# Decisions

What one call of the gate decides: a new table, an answer to the caller, and the consequences, that
is, the events that tell what was decided, the signals owed to executions, and whether the table
changed and must be saved. Decisions are taken under the lock of the table; events and signals go
out after it is given up. The building blocks below are the only consequences there are, each with
its event and, where an execution must be told, its signal.
-/
namespace SegmentGate

/-- What an execution is told. -/
inductive Verdict where
  | proceed
  /-- Give up: `displacer` took the seat. -/
  | abort (displacer : Ordinal)
  deriving DecidableEq

/-- A verdict owed to an execution (`Effect`). -/
structure Signal (κ : Type) where
  job : String
  segment : String
  waiter : Waiter κ
  verdict : Verdict
  deriving DecidableEq

/-- What a decision entails besides a new table (`Transition`). -/
structure Consequences (κ : Type) where
  events : List Event := []
  signals : List (Signal κ) := []
  changed : Bool := false
  deriving DecidableEq

namespace Consequences

variable {κ : Type}

instance : EmptyCollection (Consequences κ) := ⟨{}⟩

instance : Inhabited (Consequences κ) := ⟨∅⟩

instance : Append (Consequences κ) :=
  ⟨fun a b => ⟨a.events ++ b.events, a.signals ++ b.signals, a.changed || b.changed⟩⟩

/-- The consequences in a list, one after the other. -/
def join (ts : List (Consequences κ)) : Consequences κ := ts.foldr (· ++ ·) ∅

@[simp] theorem events_append (a b : Consequences κ) : (a ++ b).events = a.events ++ b.events := rfl

@[simp] theorem signals_append (a b : Consequences κ) : (a ++ b).signals = a.signals ++ b.signals :=
  rfl

@[simp] theorem changed_append (a b : Consequences κ) :
    (a ++ b).changed = (a.changed || b.changed) :=
  rfl

theorem events_join (ts : List (Consequences κ)) :
    (join ts).events = ts.flatMap Consequences.events := by
  induction ts with
  | nil => rfl
  | cons t ts ih => simp [join, ← ih]

theorem signals_join (ts : List (Consequences κ)) :
    (join ts).signals = ts.flatMap Consequences.signals := by
  induction ts with
  | nil => rfl
  | cons t ts ih => simp [join, ← ih]

theorem changed_join (ts : List (Consequences κ)) :
    (join ts).changed = ts.any Consequences.changed := by
  induction ts with
  | nil => rfl
  | cons t ts ih => simp [join, ← ih]

/-! ## What happens to an execution -/

/-- The execution enters (`admit`). -/
def admitted (job segment : String) (w : Waiter κ) : Consequences κ where
  events := [.about .admitted job segment w.ordinal]
  signals := [⟨job, segment, w, .proceed⟩]
  changed := true

/-- The execution takes the seat. -/
def parked (job segment : String) (w : Waiter κ) : Consequences κ where
  events := [.about .parked job segment w.ordinal]
  changed := true

/-- The waiter enters because `leaver` left (`promote`). -/
def promoted (job segment : String) (w : Waiter κ) (leaver : Ordinal) : Consequences κ where
  events := [{ Event.about .promoted job segment w.ordinal with other := some leaver }]
  signals := [⟨job, segment, w, .proceed⟩]
  changed := true

/-- The execution loses to the newer `displacer` (`supersede`). -/
def superseded (job segment : String) (w : Waiter κ) (displacer : Ordinal) : Consequences κ where
  events := [{ Event.about .superseded job segment w.ordinal with other := some displacer }]
  signals := [⟨job, segment, w, .abort displacer⟩]

/-- The holder leaves. -/
def released (job segment : String) (o : Ordinal) : Consequences κ where
  events := [.about .released job segment o]
  changed := true

/-- The waiter leaves its seat. -/
def seatCleared (job segment : String) (o : Ordinal) : Consequences κ where
  events := [{ Event.about .released job segment o with reason := some "waiting" }]
  changed := true

/-- The waiter asked for the seat it has. -/
def reentered (job segment : String) (o : Ordinal) : Consequences κ where
  events := [.about .reentered job segment o]

end Consequences

/-- What a call of the gate does: the table after it, its answer, and what it entails. -/
structure Decision (κ α : Type) where
  table : Table κ
  answer : α
  consequences : Consequences κ

end SegmentGate
