import SegmentGate.Text.Quoted
/-!
# Errors

`GateError` is what a caller of the gate can be told; `StoreError` and `AbortError` are failures
that the gate reports as events and then goes on. Each has a stable `label` for metrics
(`as_label`), a one-line `message` (`as_message`), and a `display` text for people. Names and values
that come from outside are quoted in the display text. The causes inside a `StoreError` are texts of
the surroundings.
-/
namespace SegmentGate

/-- The number of an execution within its job; a larger number is a newer execution. -/
abbrev Ordinal := UInt64

/-- An ordinal as it is printed. -/
def Ordinal.text (o : Ordinal) : String := o.toNat.repr

inductive GateError where
  /-- The execution already is the waiter of the segment it asked to enter. -/
  | reentered (job segment : String) (ordinal : Ordinal)
  /-- The name of the segment is absent or blank. -/
  | missingName
  /-- The limit is no positive integer of 32 bits (`InvalidConcurrency`). -/
  | badLimit (value : String)
  /-- The completion queue has no free slot. -/
  | full
  /-- Nobody will ever take a report from the completion queue. -/
  | closed
  deriving DecidableEq, Repr

def GateError.label : GateError → String
  | .reentered .. => "gate_reentered"
  | .missingName => "gate_missing_name"
  | .badLimit _ => "gate_invalid_concurrency"
  | .full => "gate_full"
  | .closed => "gate_closed"

def GateError.message : GateError → String
  | .reentered job segment ordinal =>
    "reentered: job=" ++ job ++ " segment=" ++ segment ++ " ordinal=" ++ ordinal.text
  | .missingName => "missing segment name"
  | .badLimit value => "invalid concurrency: " ++ value
  | .full => "completion queue full"
  | .closed => "completion channel closed"

def GateError.display : GateError → String
  | .reentered job segment ordinal =>
    "execution #" ++ ordinal.text ++ " of job " ++ Text.quote job ++
      " is trying to reenter the segment " ++ Text.quote segment
  | .missingName => "must specify segment name"
  | .badLimit value =>
    "invalid concurrency " ++ Text.quote value ++ ": expected a positive integer"
  | .full => "completion queue full"
  | .closed => "completion channel closed"

/-- A failure to read or write a snapshot, with the text of its cause. -/
inductive StoreError where
  | io (cause : String)
  | codec (cause : String)
  deriving DecidableEq, Repr

def StoreError.label : StoreError → String
  | .io _ => "store_io"
  | .codec _ => "store_codec"

def StoreError.message : StoreError → String
  | .io cause => "io: " ++ cause
  | .codec cause => "codec: " ++ cause

def StoreError.display : StoreError → String
  | .io cause => "snapshot i/o failed: " ++ cause
  | .codec cause => "snapshot codec failed: " ++ cause

/-- Why a displaced execution could not be aborted. -/
inductive AbortError where
  | gone
  | refused (reason : String)
  deriving DecidableEq, Repr

def AbortError.label : AbortError → String
  | .gone => "abort_gone"
  | .refused _ => "abort_refused"

def AbortError.message : AbortError → String
  | .gone => "execution gone"
  | .refused reason => "refused: " ++ reason

def AbortError.display : AbortError → String
  | .gone => "execution is gone"
  | .refused reason => "abort refused: " ++ reason

end SegmentGate
