import SegmentGate.Error
/-!
# Tokens and interruptions

A suspended execution is known by a durable `Token`, whose text means nothing to the gate. When it
is told to give up, it is told why: an `Interruption`.
-/
namespace SegmentGate

/-- Durable name of the capability to resume an execution (`ResumeToken`). -/
structure Token where
  text : String
  deriving DecidableEq, Repr

inductive Interruption where
  /-- The newer execution `displacer` took the waiting seat of the segment. -/
  | superseded (job segment : String) (displacer : Ordinal)
  /-- The capability was dropped without a signal. -/
  | detached
  deriving DecidableEq, Repr

def Interruption.label : Interruption → String
  | .superseded .. => "superseded"
  | .detached => "detached"

def Interruption.display : Interruption → String
  | .superseded job segment displacer =>
    "superseded by #" ++ displacer.text ++ " waiting for segment " ++ Text.quote segment ++
      " of " ++ job
  | .detached => "resumption capability dropped"

end SegmentGate
