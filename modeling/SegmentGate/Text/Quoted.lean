import SegmentGate.Text.Hidden
/-!
# Quoted text

Messages show names and reasons in double quotes. A quote or a backslash inside is preceded by a
backslash; NUL, tab, line feed and carriage return have letters of their own; any other hidden
character is written as its code point in lower-case hexadecimal. So a quoted text ends at the first
quote that no backslash precedes, and holds no line break.
-/
namespace SegmentGate.Text.Quoted

/-- How one character is written between the quotes. -/
def encode (c : Char) : List Char :=
  if c = '"' then ['\\', '"']
  else if c = '\\' then ['\\', '\\']
  else if c = '\x00' then ['\\', '0']
  else if c = '\t' then ['\\', 't']
  else if c = '\n' then ['\\', 'n']
  else if c = '\r' then ['\\', 'r']
  else if isHidden c then ['\\', 'u', '\x7b'] ++ Nat.toDigits 16 c.toNat ++ ['\x7d']
  else [c]

def quoteChars (cs : List Char) : List Char := '"' :: (cs.flatMap encode ++ ['"'])

end Quoted

/-- The text in double quotes. -/
def quote (s : String) : String := String.ofList (Quoted.quoteChars s.toList)

end SegmentGate.Text
