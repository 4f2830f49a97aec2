import SegmentGate.Error
import SegmentGate.Text.Blank
import SegmentGate.Text.Decimal
/-!
# Limits

A segment takes at most `n` holders, or any number. The author of a pipeline writes the limit as a
text, in which an empty text means no limit; a snapshot holds it as an integer of 32 bits, whose
largest value means no limit. `ofRaw_raw` says that the integer loses nothing but the odd limit of
that largest value.
-/
namespace SegmentGate

/-- How many executions may hold a segment (`Concurrency`). -/
inductive Limit where
  /-- At most `n` holders. -/
  | atMost (n : UInt32)
  /-- Every entrant is admitted. -/
  | unbounded
  deriving DecidableEq, Repr

namespace Limit

instance : Inhabited Limit := ⟨.unbounded⟩

/-- The integer that stands for "no limit". -/
def unboundedRaw : UInt32 := 4294967295

/-- The limit that an integer stands for. No check is made: zero is a limit too. -/
def ofRaw (n : UInt32) : Limit := if n = unboundedRaw then .unbounded else .atMost n

/-- The largest number of holders, if there is one (`limit`). -/
def bound? : Limit → Option UInt32
  | .atMost n => some n
  | .unbounded => none

/-- The integer that stands for the limit. -/
def raw (l : Limit) : UInt32 := l.bound?.getD unboundedRaw

/-- A segment with `holders` holders has room for one more. -/
def admits : Limit → Nat → Bool
  | .atMost n, holders => decide (holders < n.toNat)
  | .unbounded, _ => true

/-- A limit given as an integer (`limited`); nobody could ever enter under a limit of zero. -/
def positive (n : UInt32) : Except GateError Limit :=
  if n = 0 then .error (.badLimit "0") else .ok (ofRaw n)

/-- The value of a limit's digits: an optional plus sign, then digits that fit 32 bits. -/
def readDigits? (cs : List Char) : Option UInt32 :=
  let digits := match cs with
    | '+' :: r => r
    | r => r
  match Text.Decimal.read? digits with
  | some n => if n < UInt32.size then some (UInt32.ofNat n) else none
  | none => none

/-- The limit a pipeline author wrote (`from_str`). -/
def parse (s : String) : Except GateError Limit :=
  let t := Text.trim s
  if t = "" then .ok .unbounded
  else
    match readDigits? t.toList with
    | some n => positive n
    | none => .error (.badLimit t)

/-- The text that `parse` reads back. -/
def display : Limit → String
  | .atMost n => n.toNat.repr
  | .unbounded => ""

theorem ofRaw_raw {l : Limit} (h : l ≠ .atMost unboundedRaw) : ofRaw l.raw = l := by
  cases l with
  | unbounded => rfl
  | atMost n =>
    have hn : n ≠ unboundedRaw := fun e => h (e ▸ rfl)
    simp [raw, bound?, ofRaw, hn]

theorem raw_ofRaw (n : UInt32) : (ofRaw n).raw = n := by
  unfold ofRaw
  split
  · rename_i h
    exact h.symm
  · rfl

end Limit
end SegmentGate
