import SegmentGate.Gate.Call
import SegmentGate.Gate.Delivery
/-!
# Executions

The other side of a gate: executions that ask to enter, and that do something when they are told to
proceed or to give up. What an execution does then is a list of further calls of the same gate, so a
delivery may lead to calls within calls.
-/
namespace SegmentGate

/-- A limit as the caller of the gate gives it. -/
inductive LimitArgument where
  | integer (n : UInt32)
  | text (s : Option String)
  deriving DecidableEq, Repr

/-- How an execution is told its verdict. -/
inductive CapabilityKind where
  /-- Through a channel it waits on. -/
  | channel
  /-- By running a script; an abort then succeeds or fails as given. -/
  | scripted (failure : Option AbortError)
  deriving DecidableEq, Repr

/-- The arguments of a request to enter. -/
structure Entry where
  job : String
  ordinal : Ordinal
  segment : Option String
  limit : LimitArgument
  token : Token
  kind : CapabilityKind
  deriving DecidableEq, Repr

/-- The segment asked for, if the arguments make sense. -/
def Entry.target (e : Entry) : Except GateError Target :=
  match e.limit with
  | .integer n => Target.new (e.segment.getD "") (.ofRaw n)
  | .text limit => Target.parse e.segment limit

/-- A call of the gate. An execution that enters brings the calls it makes when it is told to
proceed and when it is told to give up. -/
inductive Action where
  | enter (e : Entry) (onProceed onAbort : List Action)
  | exit (job : String) (o : Ordinal)
  | snapshot
  | segment (job name : String)

/-- The script of an execution. -/
structure Behaviour where
  failure : Option AbortError := none
  onProceed : List Action := []
  onAbort : List Action := []

/-- What is known of executions that wait from before a restart: their scripts by token. -/
abbrev Resolver := List (Token × Behaviour)

/-- The script of the execution that waits with a token. -/
def Resolver.find? (known : Resolver) (token : Token) : Option Behaviour :=
  (List.find? (fun e => e.1 = token) known).map Prod.snd

inductive Capability where
  /-- The channel of that number. -/
  | channel (id : Nat)
  | scripted (token : Token) (behaviour : Behaviour)

/-! ## How many calls a script can lead to -/

mutual

/-- The number of calls in a call, itself included. -/
def Action.size : Action → Nat
  | .enter _ onProceed onAbort => 1 + Action.sizeList onProceed + Action.sizeList onAbort
  | _ => 1

def Action.sizeList : List Action → Nat
  | [] => 0
  | a :: as => a.size + Action.sizeList as

end

def Behaviour.size (b : Behaviour) : Nat := Action.sizeList b.onProceed + Action.sizeList b.onAbort

def Resolver.size (known : Resolver) : Nat := known.foldl (fun n e => n + e.2.size) 0

def Capability.size : Capability → Nat
  | .channel _ => 0
  | .scripted _ b => b.size

/-! ## What is seen of a delivery -/

/-- What a caller of the gate gets. -/
inductive Answer where
  | replied (r : Reply Capability)
  /-- The arguments made no sense, and the gate was not called. -/
  | rejected (e : GateError)
  /-- The call was given up. -/
  | dropped
  /-- There is no gate. -/
  | noGate

/-- What executions and the resolver notice. -/
inductive Notice where
  | proceed (token : Token)
  | abort (token : Token) (cause : Interruption)
  | resolve (token : Token) (job : String) (found : Bool)
  /-- A call made by a script came back. -/
  | nested (a : Answer)

end SegmentGate
