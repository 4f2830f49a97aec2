import SegmentGate.Snapshot.Document
/-!
# Snapshots in memory

The snapshot is kept as its text, so that a gate which loads it sees what it would see in a file:
no live capabilities.
-/
namespace SegmentGate

/-- A store that keeps the snapshot in memory (`MemoryStore`). -/
structure SnapshotMemory where
  bytes : Option ByteArray := none
  /-- How many snapshots were saved. -/
  saves : Nat := 0

namespace SnapshotMemory

def name : String := "MemoryStore"

variable {κ : Type}

def load (s : SnapshotMemory) : Except StoreError (Option (Table κ)) :=
  match s.bytes with
  | none => .ok none
  | some bytes =>
    match Table.decode? bytes with
    | some t => .ok (some t)
    | none => .error (.codec "malformed snapshot")

def save (s : SnapshotMemory) (t : Table κ) : SnapshotMemory :=
  ⟨some (t.encode .compact).toUTF8, s.saves + 1⟩

end SnapshotMemory
end SegmentGate
