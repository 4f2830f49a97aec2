import SegmentGate.Json.Basic
import SegmentGate.Text.Decimal
/-!
# Writing JSON

One printer, with the blanks between tokens as a parameter: `Layout.compact` puts none,
`Layout.pretty` gives each item and each member a line of its own, two blanks deeper than its
container.
-/
namespace SegmentGate.Json

/-- The blanks of a written document: before an item or closing bracket at a nesting level, and
after the colon of a member. -/
structure Layout where
  newline : Nat → List Char
  afterColon : List Char

def Layout.compact : Layout := ⟨fun _ => [], []⟩

def Layout.pretty : Layout := ⟨fun level => '\n' :: List.replicate (2 * level) ' ', [' ']⟩

/-- How a character is written inside quotes: only the quote, the backslash and the characters
below U+0020 are changed. -/
def encodeChar (c : Char) : List Char :=
  if c = '"' then ['\\', '"']
  else if c = '\\' then ['\\', '\\']
  else if c = '\x08' then ['\\', 'b']
  else if c = '\x0c' then ['\\', 'f']
  else if c = '\n' then ['\\', 'n']
  else if c = '\r' then ['\\', 'r']
  else if c = '\t' then ['\\', 't']
  else if c.toNat < 0x20 then
    ['\\', 'u', '0', '0', (c.toNat / 16).digitChar, (c.toNat % 16).digitChar]
  else [c]

def writeText (s : String) : List Char := '"' :: (s.toList.flatMap encodeChar ++ ['"'])

mutual

/-- The characters of a value that stands at nesting level `level`. -/
def write (l : Layout) (level : Nat) : Written → List Char
  | .null => ['n', 'u', 'l', 'l']
  | .bool true => ['t', 'r', 'u', 'e']
  | .bool false => ['f', 'a', 'l', 's', 'e']
  | .number n => Text.Decimal.write n
  | .text s => writeText s
  | .array [] => ['[', ']']
  | .array (j :: js) =>
    '[' :: (l.newline (level + 1) ++ write l (level + 1) j ++ writeItems l (level + 1) js ++
      l.newline level ++ [']'])
  | .object [] => ['\x7b', '\x7d']
  | .object (m :: ms) =>
    '\x7b' :: (l.newline (level + 1) ++ writeText m.1 ++ ':' :: (l.afterColon ++
      write l (level + 1) m.2 ++ writeMembers l (level + 1) ms ++ l.newline level ++ ['\x7d']))

/-- The items after the first, each behind a comma. -/
def writeItems (l : Layout) (level : Nat) : List Written → List Char
  | [] => []
  | j :: js => ',' :: (l.newline level ++ write l level j ++ writeItems l level js)

/-- The members after the first, each behind a comma. -/
def writeMembers (l : Layout) (level : Nat) : List (String × Written) → List Char
  | [] => []
  | (k, j) :: ms =>
    ',' :: (l.newline level ++ writeText k ++ ':' :: (l.afterColon ++ write l level j ++
      writeMembers l level ms))

end

def render (l : Layout) (j : Written) : String := String.ofList (write l 0 j)

def compact (j : Written) : String := render .compact j

def pretty (j : Written) : String := render .pretty j

end SegmentGate.Json
