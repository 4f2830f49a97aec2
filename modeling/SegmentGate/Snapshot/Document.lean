import SegmentGate.Json.Parser
import SegmentGate.Json.Printer
import SegmentGate.Table.Basic
/-!
# Snapshots

A snapshot is a table as a JSON document: an object of jobs, each an object of segments. What is
written is one fixed text for a table. What is read may have its members in any order and may have
further members, which are skipped; a record may also be the array of its fields. Live capabilities
are not written, so a table comes back as `Table.forget` of itself. Where a document is refused, the
reason is left out: the stores only tell that it is malformed.
-/
namespace SegmentGate

namespace Json

/-- The fields of a record, in the order asked for: the members of an object, none of them twice, or
the items of an array with one item for each field. -/
def fields? (names : List String) : Read → Option (List (Option Read))
  | .object members =>
    if members.all fun m => m.1.isSome then
      names.mapM fun n =>
        match members.filter fun m => m.1 = some n with
        | [] => some none
        | [m] => some (some m.2)
        | _ => none
    else none
  | .array items => if items.length = names.length then some (items.map some) else none
  | _ => none

def binding? {ν : Type} (f : Read → Option ν) (m : Option String × Read) : Option (String × ν) := do
  let k ← m.1
  let v ← f m.2
  return (k, v)

/-- The bindings of an object, each value read by `f`; the last of several bindings of a key
stays. -/
def bindings? {ν : Type} (f : Read → Option ν) : Read → Option (SortedMap String ν)
  | .object members => (members.mapM (binding? f)).map SortedMap.ofList
  | _ => none

def text? : Read → Option String
  | .text s => s
  | _ => none

/-- A natural number below `bound`. -/
def below? (bound : Nat) : Read → Option Nat
  | .number (some n) => if n < bound then some n else none
  | _ => none

def ordinal? (j : Read) : Option Ordinal := (below? UInt64.size j).map UInt64.ofNat

def ordinals? : Read → Option (SortedSet Ordinal)
  | .array items => (items.mapM ordinal?).map SortedSet.ofList
  | _ => none

/-- The bindings of a map as members of an object. -/
def ofMap {ν : Type} (f : ν → Written) (m : SortedMap String ν) : Written :=
  .object (m.entries.map fun e => (e.1, f e.2))

end Json

open Json (Read Written)

def Limit.ofJson? (j : Read) : Option Limit :=
  (j.below? UInt32.size).map fun n => .ofRaw (UInt32.ofNat n)

def Limit.toJson (l : Limit) : Written := .number l.raw.toNat

namespace Waiter

variable {κ : Type}

def toJson (w : Waiter κ) : Written :=
  .object [("ordinal", .number w.ordinal.toNat), ("token", .text w.token.text)]

def ofJson? (j : Read) : Option (Waiter κ) := do
  match ← j.fields? ["ordinal", "token"] with
  | [some ordinal, some token] =>
    return { ordinal := ← ordinal.ordinal?, token := ⟨← token.text?⟩, live := none }
  | _ => none

end Waiter

namespace Segment

variable {κ : Type}

def toJson (s : Segment κ) : Written :=
  .object [("holding", .array (s.holding.elements.map fun o => .number o.toNat)),
    ("concurrency", s.limit.toJson),
    ("waiting", (s.waiting.map Waiter.toJson).getD .null)]

/-- The seat, which may be missing or null when it is empty. -/
def seatOfJson? : Option Read → Option (Option (Waiter κ))
  | none => some none
  | some .null => some none
  | some j => (Waiter.ofJson? j).map some

def ofJson? (j : Read) : Option (Segment κ) := do
  match ← j.fields? ["holding", "concurrency", "waiting"] with
  | [some holding, some limit, waiting] =>
    return { holding := ← holding.ordinals?, limit := ← Limit.ofJson? limit,
             waiting := ← seatOfJson? waiting }
  | _ => none

end Segment

namespace Table

variable {κ : Type}

def toJson (t : Table κ) : Written :=
  .object [("jobs", Json.ofMap (Json.ofMap Segment.toJson) t.jobs)]

def ofJson? (j : Read) : Option (Table κ) := do
  match ← j.fields? ["jobs"] with
  | [some jobs] => return ⟨← jobs.bindings? (Json.bindings? Segment.ofJson?)⟩
  | _ => none

/-- The snapshot of a table, laid out as asked. -/
def encode (l : Json.Layout) (t : Table κ) : String := Json.render l t.toJson

/-- The table of a snapshot. -/
def decode? (bytes : ByteArray) : Option (Table κ) := (Json.read? bytes).bind ofJson?

end Table
end SegmentGate
