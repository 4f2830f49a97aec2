/-!
# The event bus

A bus sends what is published to every receiver that listens at that moment, and never waits for
one. It retains the newest values in a ring; a receiver that is further behind than the ring reaches
is told once how many values it missed and goes on with the oldest that is left. The ring is the
smallest power of two that holds the capacity asked for, so it may retain more than that.

Positions count the published values. `retained` holds those at positions `start`, `start + 1`, …;
a receiver is the position of the value it reads next.
-/
namespace SegmentGate

/-- The bus with all its receivers. -/
structure Bus (α : Type) where
  capacity : Nat
  /-- The values still in the ring, oldest first. -/
  retained : List α := []
  /-- The position of the oldest retained value. -/
  start : Nat := 0
  /-- The next position of each receiver, in the order of subscription; none once it is gone. -/
  cursors : List (Option Nat) := []
  /-- How many handles can still publish. -/
  handles : Nat := 1
  deriving DecidableEq

namespace Bus

variable {α : Type}

/-- A bus that nobody listens to yet; a capacity of zero is treated as one. -/
def new (capacity : Nat) : Bus α := { capacity := max 1 capacity }

instance : Inhabited (Bus α) := ⟨new 1⟩

/-- How many values the ring retains. -/
def ring (b : Bus α) : Nat := b.capacity.nextPowerOfTwo

/-- The position of the next value to be published. -/
def tail (b : Bus α) : Nat := b.start + b.retained.length

/-- The number of receivers that listen. -/
def receivers (b : Bus α) : Nat := b.cursors.countP Option.isSome

/-- A value published while nobody listens is gone; it takes no position. -/
def publish (b : Bus α) (v : α) : Bus α :=
  if b.receivers = 0 then b
  else
    let all := b.retained ++ [v]
    let old := all.length - b.ring
    { b with retained := all.drop old, start := b.start + old }

/-- A new receiver hears what is published from now on. -/
def subscribe (b : Bus α) : Nat × Bus α :=
  (b.cursors.length, { b with cursors := b.cursors ++ [some b.tail] })

def unsubscribe (b : Bus α) (rx : Nat) : Bus α := { b with cursors := b.cursors.set rx none }

def clone (b : Bus α) : Bus α := { b with handles := b.handles + 1 }

def dropHandle (b : Bus α) : Bus α := { b with handles := b.handles - 1 }

/-- What a receiver gets when it looks. -/
inductive Received (α : Type) where
  | value (v : α)
  | empty
  /-- Nothing is left and nobody can publish. -/
  | closed
  /-- So many values were lost. -/
  | lagged (missed : Nat)
  /-- There is no such receiver any more. -/
  | gone
  deriving DecidableEq

/-- The receiver stands at `next` from now on. -/
def advance (b : Bus α) (rx next : Nat) : Bus α :=
  { b with cursors := b.cursors.set rx (some next) }

/-- A receiver looks at its next value. -/
def receive (b : Bus α) (rx : Nat) : Received α × Bus α :=
  match (b.cursors[rx]?).join with
  | none => (.gone, b)
  | some next =>
    if next < b.start then (.lagged (b.start - next), b.advance rx b.start)
    else
      match b.retained[next - b.start]? with
      | some v => (.value v, b.advance rx (next + 1))
      | none => (if b.handles = 0 then .closed else .empty, b)

/-- All that a receiver gets until nothing is left, at most `n` answers. -/
def receiveUpTo : Nat → Bus α → Nat → List (Received α) × Bus α
  | 0, b, _ => ([], b)
  | n + 1, b, rx =>
    match b.receive rx with
    | (.value v, b) =>
      let (rs, b) := receiveUpTo n b rx
      (.value v :: rs, b)
    | (.lagged k, b) =>
      let (rs, b) := receiveUpTo n b rx
      (.lagged k :: rs, b)
    | (_, b) => ([], b)

/-- How many values a receiver has not looked at, as far as they are retained. -/
def pending (b : Bus α) (rx : Nat) : Nat :=
  match (b.cursors[rx]?).join with
  | none => 0
  | some next => b.tail - max next b.start

/-- All values that a receiver has not looked at, and the lag before them. -/
def receiveAll (b : Bus α) (rx : Nat) : List (Received α) × Bus α :=
  receiveUpTo (b.pending rx + 1) b rx

end Bus
end SegmentGate
