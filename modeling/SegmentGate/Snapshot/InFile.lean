import SegmentGate.Disk
import SegmentGate.Settings
import SegmentGate.Snapshot.Document
/-!
# Snapshots in a file

A snapshot is first written to a file of its own beside the snapshot file, brought to the medium,
and only then renamed over it. Whenever a save is cut short, the snapshot file holds the old
snapshot or the new one. Of a text that is no snapshot it is only told that it is malformed, not
where or why.
-/
namespace SegmentGate

/-- A store that keeps the snapshot in a file (`FileStore`). -/
structure SnapshotFile where
  path : Path
  path_endsInName : path.endsInName = true

namespace SnapshotFile

def name : String := "FileStore"

/-- The snapshot file in a state directory. -/
def inDirectory (dir : Path) : SnapshotFile where
  path := dir.join ⟨[snapshotName]⟩
  path_endsInName := by
    rw [Path.endsInName_join dir (List.cons_ne_nil _ _)]
    decide

/-- Where a snapshot is written before it replaces the last one (`tmp_path`). -/
def draft (s : SnapshotFile) : Path := s.path.addSuffix ".tmp"

/-- A file of nothing but the ASCII blanks is an empty file. -/
def isBlankByte (b : UInt8) : Bool := b = 32 || b = 9 || b = 10 || b = 12 || b = 13

variable {κ : Type}

/-- The saved table; none if nothing was saved yet. -/
def load (s : SnapshotFile) (d : Disk) : Except StoreError (Option (Table κ)) :=
  match d.read s.path with
  | .error .noEntry => .ok none
  | .error e => .error (.io e.text)
  | .ok bytes =>
    if bytes.toList.all isBlankByte then .ok none
    else
      match Table.decode? bytes with
      | some t => .ok (some t)
      | none => .error (.codec "malformed snapshot")

/-- The steps of a save. -/
def saveSteps (s : SnapshotFile) (t : Table κ) : List Disk.Step :=
  Disk.makeParent s.path ++ [.create s.draft, .append s.draft (t.encode .pretty).toUTF8,
    .sync s.draft, .rename s.draft s.path]

def save (s : SnapshotFile) (t : Table κ) (d : Disk) : Disk × Except StoreError Unit :=
  match d.run (s.saveSteps t) with
  | (d, none) => (d, .ok ())
  | (d, some e) => (d, .error (.io e.text))

end SnapshotFile
end SegmentGate
