/-!
# JSON values

A value over the type `σ` of its texts and `ν` of its numbers. What is written has texts and
natural numbers (`Json String Nat`). What is read may also hold a text that is no sequence of
characters, or a number that is no natural number: both are well formed, and only matter where
somebody looks at them (`Json (Option String) (Option Nat)`).
-/
namespace SegmentGate

inductive Json (σ ν : Type) where
  | null
  | bool (b : Bool)
  | number (n : ν)
  | text (s : σ)
  | array (items : List (Json σ ν))
  | object (members : List (σ × Json σ ν))

namespace Json

instance {σ ν : Type} : Inhabited (Json σ ν) := ⟨.null⟩

variable {σ ν σ' ν' : Type}

mutual

/-- The same value over other texts and numbers. -/
def map (f : σ → σ') (g : ν → ν') : Json σ ν → Json σ' ν'
  | .null => .null
  | .bool b => .bool b
  | .number n => .number (g n)
  | .text s => .text (f s)
  | .array items => .array (mapItems f g items)
  | .object members => .object (mapMembers f g members)

def mapItems (f : σ → σ') (g : ν → ν') : List (Json σ ν) → List (Json σ' ν')
  | [] => []
  | j :: js => j.map f g :: mapItems f g js

def mapMembers (f : σ → σ') (g : ν → ν') : List (σ × Json σ ν) → List (σ' × Json σ' ν')
  | [] => []
  | (k, j) :: ms => (f k, j.map f g) :: mapMembers f g ms

end

/-- A value as it is read from a document. -/
abbrev Read := Json (Option String) (Option Nat)

/-- A value as it is written to a document. -/
abbrev Written := Json String Nat

/-- The four blanks that may stand between tokens. -/
def isSpace (c : Char) : Bool := c = ' ' || c = '\t' || c = '\n' || c = '\r'

end Json
end SegmentGate
