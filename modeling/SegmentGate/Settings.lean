import SegmentGate.Path
/-!
# Settings of a gate

Capacities of zero are treated as one. A gate with a state directory keeps its snapshot in the file
`snapshotName` of that directory, otherwise in memory. Here and in the other modules that define the
gate, a docstring gives in brackets the name that an operation or a type has among those who call
the gate or maintain it, where that is another one.
-/
namespace SegmentGate

/-- The name of the snapshot file (`SNAPSHOT_FILE`). -/
def snapshotName : String := "segments.json"

/-- The settings (`GateConfig`). -/
structure Settings where
  busCapacity : Nat := 1024
  reportCapacity : Nat := 1024
  stateDir : Option Path := none

namespace Settings

/-- The capacity that the bus gets (`bus_capacity_clamped`). -/
def busSize (s : Settings) : Nat := max 1 s.busCapacity

/-- The capacity that the queue of completion reports gets (`completion_capacity_clamped`). -/
def reportQueueSize (s : Settings) : Nat := max 1 s.reportCapacity

/-- The path of the snapshot file, if there is a state directory (`state_file`). -/
def stateFile (s : Settings) : Option Path := s.stateDir.map (·.join ⟨[snapshotName]⟩)

end Settings
end SegmentGate
