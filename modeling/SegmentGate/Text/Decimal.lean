/-!
# Decimal numbers

Numbers are written with the fewest digits and read back with any number of leading zeros.
`read?_write` is the law that ties the two together.
-/
namespace SegmentGate.Text.Decimal

def write (n : Nat) : List Char := Nat.toDigits 10 n

/-- The value of a text of one or more ASCII digits. -/
def read? (cs : List Char) : Option Nat :=
  if cs ≠ [] ∧ cs.all Char.isDigit = true then some (Nat.ofDigitChars 10 cs 0) else none

theorem read?_write (n : Nat) : read? (write n) = some n := by
  have h : (write n).all Char.isDigit = true :=
    List.all_eq_true.mpr fun _ => Nat.isDigit_of_mem_toDigits (by decide) (by decide)
  rw [read?, if_pos ⟨Nat.toDigits_ne_nil, h⟩]
  exact congrArg some Nat.ofDigitChars_ten_toDigits

end SegmentGate.Text.Decimal
