import SegmentGate.Segment.Limit
/-!
# Targets

An execution that asks to enter names the segment and the limit it shall have. A name is any text
that is not blank; the limit overwrites the one the segment had.
-/
namespace SegmentGate

/-- The segment that an execution asks to enter (`SegmentSpec`). -/
structure Target where
  name : String
  limit : Limit
  deriving DecidableEq, Repr

namespace Target

/-- The name under which pipeline scripts call the step that enters a segment (`FUNCTION_NAME`). -/
def stepName : String := "segment"

/-- The name is checked, the limit is taken as it is. -/
def new (name : String) (limit : Limit) : Except GateError Target :=
  if Text.allBlank name then .error .missingName else .ok ⟨name, limit⟩

/-- A target from the arguments of a script. An absent limit is no limit. A missing name is
reported before a bad limit, and a bad limit before a blank name. -/
def parse (name limit : Option String) : Except GateError Target :=
  match name with
  | none => .error .missingName
  | some name =>
    match Limit.parse (limit.getD "") with
    | .error e => .error e
    | .ok l => new name l

def limited (name : String) (n : UInt32) : Except GateError Target :=
  match Limit.positive n with
  | .error e => .error e
  | .ok l => new name l

def unbounded (name : String) : Except GateError Target := new name .unbounded

end Target
end SegmentGate
