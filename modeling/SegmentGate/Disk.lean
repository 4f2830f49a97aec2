import SegmentGate.Data.SortedMap
import SegmentGate.Path
/-!
# A file system

Directories and files by their place. A path is followed from directory to directory, and every
operation starts with that. The operations are those that a snapshot needs, one step each, and fail
for the reasons a file system has. A step that fails changes nothing. Permissions, links and a full
medium are left out.
-/
namespace SegmentGate

/-- The way from the root to a file or a directory, by names only. -/
abbrev Place := List String

/-- Why a file operation fails. -/
inductive FileError where
  | noEntry
  | exists
  | notDirectory
  | isDirectory
  /-- A name or the whole path is too long. -/
  | tooLong
  /-- The path holds the character that ends paths. -/
  | holdsNul
  deriving DecidableEq, Repr

/-- The text that comes with the failure; the operating system never sees a path that holds NUL. -/
def FileError.text : FileError → String
  | .noEntry => "No such file or directory (os error 2)"
  | .exists => "File exists (os error 17)"
  | .notDirectory => "Not a directory (os error 20)"
  | .isDirectory => "Is a directory (os error 21)"
  | .tooLong => "File name too long (os error 36)"
  | .holdsNul => "file name contained an unexpected NUL byte"

/-- The bytes that a name has at most. -/
def nameLimit : Nat := 255

/-- The bytes that a path has at most. -/
def pathLimit : Nat := 4095

/-- Why the path cannot be followed on any disk. -/
def Path.fault? (p : Path) : Option FileError :=
  let s := p.text
  if s.toList.contains '\x00' then some .holdsNul
  else if s = "" then some .noEntry
  else if pathLimit < s.utf8ByteSize then some .tooLong
  else none

inductive Node where
  | file (bytes : ByteArray)
  | directory

structure Disk where
  nodes : SortedMap Place Node := ∅

namespace Disk

/-- The working directory lies below the root. No path leads there by name: no name holds a
slash. -/
def workingDirectory : Place := ["/", "/"]

/-- The working directory and those above it always exist. -/
def node? (d : Disk) (here : Place) : Option Node :=
  if here.isPrefixOf workingDirectory then some .directory else d.nodes.get? here

def set (d : Disk) (here : Place) (n : Node) : Disk := ⟨d.nodes.insert here n⟩

/-- Where a piece of a path leads from a directory. The root is its own parent. -/
def enter (here : Place) (piece : String) : Place :=
  if piece = ".." then here.dropLast
  else if Path.leads piece then here ++ [piece]
  else here

/-- Follows the pieces of a path. Each is looked up in a directory. -/
def follow (d : Disk) (here : Place) : List String → Except FileError Place
  | [] => .ok here
  | piece :: rest =>
    match d.node? here with
    | some .directory =>
      if nameLimit < piece.utf8ByteSize then .error .tooLong else d.follow (enter here piece) rest
    | some (.file _) => .error .notDirectory
    | none => .error .noEntry

/-- Where a path starts, and the pieces to follow from there. -/
def start (p : Path) : Place × List String :=
  if p.isAbsolute then ([], p.pieces.tail) else (workingDirectory, p.pieces)

/-- The place that a path leads to. -/
def locate (d : Disk) (p : Path) : Except FileError Place :=
  match p.fault? with
  | some e => .error e
  | none => d.follow (start p).1 (start p).2

/-- The place that a path leads to, where something is to be made. Slashes at its end ask for
nothing there. -/
def locateNew (d : Disk) (p : Path) : Except FileError Place :=
  match p.fault? with
  | some e => .error e
  | none => d.follow (start p).1 ((start p).2.reverse.dropWhile (· = "")).reverse

def read (d : Disk) (p : Path) : Except FileError ByteArray := do
  match d.node? (← d.locate p) with
  | some (.file bytes) => return bytes
  | some .directory => throw .isDirectory
  | none => throw .noEntry

/-! ## Steps that change the disk -/

inductive Step where
  /-- A directory, unless it is there already. -/
  | makeDirectory (p : Path)
  /-- An empty file; a file that was there loses its content. -/
  | create (p : Path)
  /-- More content at the end of a file. -/
  | append (p : Path) (bytes : ByteArray)
  /-- The content of a file reaches the medium. -/
  | sync (p : Path)
  /-- The file gets another path, in place of the file that was there. -/
  | rename (source target : Path)

/-- The steps that make a directory and all those on the way that are missing. None is made on the
way to a directory that cannot be there at all. -/
def makeDirectories (p : Path) : List Step :=
  (if p.fault?.isSome then [p] else p.parents ++ [p]).map .makeDirectory

/-- The steps that make the directory for a file. -/
def makeParent (p : Path) : List Step :=
  match p.parent? with
  | some dir => makeDirectories dir
  | none => []

/-- The steps that give a file a content. -/
def writeSteps (p : Path) (bytes : ByteArray) : List Step :=
  makeParent p ++ [.create p, .append p bytes]

def makeDirectory (d : Disk) (p : Path) : Except FileError Disk := do
  let here ← d.locateNew p
  match d.node? here with
  | some .directory => return d
  | some (.file _) => throw .exists
  | none => return d.set here .directory

def create (d : Disk) (p : Path) : Except FileError Disk := do
  let here ← d.locateNew p
  if p.endsInSlash then throw .isDirectory
  match d.node? here with
  | some .directory => throw .isDirectory
  | _ => return d.set here (.file .empty)

def append (d : Disk) (p : Path) (bytes : ByteArray) : Except FileError Disk := do
  let here ← d.locate p
  match d.node? here with
  | some (.file old) => return d.set here (.file (old ++ bytes))
  | some .directory => throw .isDirectory
  | none => throw .noEntry

def rename (d : Disk) (source target : Path) : Except FileError Disk := do
  let source ← d.locate source
  let target ← d.locate target
  match d.node? source, d.node? target with
  | some (.file _), some .directory => throw .isDirectory
  | some (.file bytes), _ => return ⟨(d.nodes.erase source).insert target (.file bytes)⟩
  | some .directory, _ => throw .isDirectory
  | none, _ => throw .noEntry

def step (d : Disk) : Step → Except FileError Disk
  | .makeDirectory p => d.makeDirectory p
  | .create p => d.create p
  | .append p bytes => d.append p bytes
  | .sync p => do
    let _ ← d.read p
    return d
  | .rename source target => d.rename source target

/-- Takes the steps in order up to the first that fails. -/
def run (d : Disk) : List Step → Disk × Option FileError
  | [] => (d, none)
  | s :: rest =>
    match d.step s with
    | .ok d => d.run rest
    | .error e => (d, some e)

/-! ## What else happens to a disk -/

/-- A file goes away, or all that is in a directory; the directory itself goes away if the path
leads to it by its name. -/
def remove (d : Disk) (p : Path) : Disk :=
  match d.locate p with
  | .ok here =>
    let stays (q : Place) := !here.isPrefixOf q || (q == here && !p.leadsToName)
    ⟨SortedMap.ofList (d.nodes.entries.filter fun e => stays e.1)⟩
  | .error _ => d

/-- The path becomes a directory: a file that was there goes away, a directory keeps its content. -/
def beDirectory (d : Disk) (p : Path) : Disk :=
  let cleared := match d.read p with
    | .ok _ => d.remove p
    | .error _ => d
  (cleared.run (makeDirectories p)).1

/-- The names in a directory. -/
def list (d : Disk) (p : Path) : List String :=
  match d.locate p with
  | .ok here => d.nodes.keys.filterMap fun q => if q.dropLast = here then q.getLast? else none
  | .error _ => []

end Disk
end SegmentGate
