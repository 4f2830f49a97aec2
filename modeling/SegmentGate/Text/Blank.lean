/-!
# Blank characters

`isBlank` is the Unicode property White_Space, the class that names and limits are trimmed by and
that decides whether a name says anything at all.
-/
namespace SegmentGate.Text

/-- The twenty-five characters with the property White_Space. -/
def isBlank (c : Char) : Bool :=
  let n := c.toNat
  (9 ≤ n && n ≤ 13) || n == 0x20 || n == 0x85 || n == 0xA0 || n == 0x1680 ||
    (0x2000 ≤ n && n ≤ 0x200A) || n == 0x2028 || n == 0x2029 || n == 0x202F || n == 0x205F ||
    n == 0x3000

/-- A text without its blanks at both ends. -/
def trimChars (cs : List Char) : List Char :=
  ((cs.dropWhile isBlank).reverse.dropWhile isBlank).reverse

def trim (s : String) : String := String.ofList (trimChars s.toList)

/-- No character of the text is visible: it is empty or all blank. -/
def allBlank (s : String) : Bool := s.toList.all isBlank

end SegmentGate.Text
