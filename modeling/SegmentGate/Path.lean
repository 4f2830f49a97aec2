/-!
# Paths

A path is what a text says about the way to a file: pieces between slashes, followed one by one. An
empty piece and a single dot stay where they are, two dots lead one directory up, and every other
piece is a name. A path that begins with a slash starts at the root, every other one at the working
directory. The pieces are kept as they were written, because a path may end at a piece that stays,
and then leads to a directory and to nothing else.
-/
namespace SegmentGate

structure Path where
  /-- What stands between the slashes. -/
  pieces : List String
  deriving DecidableEq, Repr

namespace Path

/-- The pieces of a text; `piece` is what was read of the current one, last first. -/
def split (piece : List Char) : List Char → List String
  | [] => [String.ofList piece.reverse]
  | c :: cs =>
    if c = '/' then String.ofList piece.reverse :: split [] cs else split (c :: piece) cs

def ofText (s : String) : Path := ⟨split [] s.toList⟩

/-- The path as it is written. -/
def text (p : Path) : String := "/".intercalate p.pieces

/-- The path starts at the root. -/
def isAbsolute (p : Path) : Bool :=
  match p.pieces with
  | "" :: _ :: _ => true
  | _ => false

/-- The path `p` followed from the directory `dir`; an absolute path does not depend on it. -/
def join (dir p : Path) : Path :=
  if p.isAbsolute then p
  else ⟨(if dir.pieces.getLast? = some "" then dir.pieces.dropLast else dir.pieces) ++ p.pieces⟩

/-- A piece that leads from one directory to another place. -/
def leads (piece : String) : Bool := piece != "" && piece != "."

/-- A piece that is a name. -/
def isName (piece : String) : Bool := leads piece && piece != ".."

/-- The paths to the places on the way, nearest first, the place the path leads to included;
`before` are the pieces that were followed. -/
def stops (before : List String) : List String → List Path
  | [] => []
  | piece :: rest =>
    let before := before ++ [piece]
    if leads piece then ⟨before⟩ :: stops before rest else stops before rest

/-- The paths to the places passed on the way, nearest first. -/
def parents (p : Path) : List Path := (stops [] p.pieces).dropLast

/-- The path to the directory that the last place on the way is in, unless the path starts there. -/
def parent? (p : Path) : Option Path := p.parents.getLast?

/-- The path ends in a name. -/
def endsInName (p : Path) : Bool := (p.pieces.getLast?.map isName).getD false

/-- The path ends in a slash. -/
def endsInSlash (p : Path) : Bool := p.pieces.getLast? = some ""

/-- The last piece, slashes at the end left aside, is a name. -/
def leadsToName (p : Path) : Bool :=
  ((p.pieces.reverse.find? fun piece => piece != "").map isName).getD false

/-- The same path with `suffix` behind its last piece. -/
def addSuffix (p : Path) (suffix : String) : Path :=
  match p.pieces.getLast? with
  | some piece => ⟨p.pieces.dropLast ++ [piece ++ suffix]⟩
  | none => ⟨[suffix]⟩

/-- A relative path keeps its last piece behind every directory. -/
theorem endsInName_join (dir : Path) {p : Path} (h : p.pieces ≠ []) :
    (dir.join p).endsInName = p.endsInName := by
  unfold join
  split
  · rfl
  · simp [endsInName, List.getLast?_append, List.getLast?_eq_some_getLast h]

end Path
end SegmentGate
