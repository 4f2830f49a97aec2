import SegmentGate.Event.Basic
import SegmentGate.Text.Quoted
/-!
# Log lines

`Event.logLine` is the line that the log subscriber (`LogWriter`) prints for an event: the kind in
brackets, then the details that the kind sets. Names, errors and tokens are quoted, so no name can
end the line or pose as another detail.
-/
namespace SegmentGate.Event

/-- An ordinal, or a dash where there is none. -/
def ordinalOrDash (o : Option Ordinal) : String := (o.map Ordinal.text).getD "-"

/-- The details common to all decisions about one execution. -/
def place (e : Event) : String :=
  " job=" ++ Text.quote (e.job.getD "-") ++ " segment=" ++ Text.quote (e.segment.getD "-") ++
    " run=" ++ ordinalOrDash e.ordinal

def logLine (e : Event) : String :=
  let reason := e.reason.getD "unknown"
  let body := match e.kind with
    | .admitted => "[admitted]" ++ e.place
    | .parked => "[parked]" ++ e.place
    | .promoted => "[promoted]" ++ e.place ++ " after=" ++ ordinalOrDash e.other
    | .superseded => "[superseded]" ++ e.place ++ " by=" ++ ordinalOrDash e.other
    | .released => "[released]" ++ e.place
    | .reentered => "[reentered]" ++ e.place
    | .tableLoaded => "[table-loaded] store=" ++ reason
    | .loadFailed => "[load-failed] err=" ++ Text.quote reason
    | .persistFailed =>
      "[persist-failed] job=" ++ Text.quote (e.job.getD "-") ++ " err=" ++ Text.quote reason
    | .cancelFailed => "[cancel-failed]" ++ e.place ++ " err=" ++ Text.quote reason
    | .resumeUnresolved => "[resume-unresolved]" ++ e.place ++ " token=" ++ Text.quote reason
    | .subscriberOverflow => "[subscriber-overflow] " ++ reason
    | .subscriberPanicked => "[subscriber-panicked] " ++ reason
  body ++ "\n"

end SegmentGate.Event
