import SegmentGate.Json.Basic
import SegmentGate.Text.Symbols
import SegmentGate.Text.Decimal
/-!
# JSON tokens

`Token.scan` cuts the symbols of a document into tokens. It is an automaton: `step` says for each
mode what the next symbol does, and a scan is a run of it. A damaged byte is accepted inside a
quoted text only, where it makes the text unreadable (`text none`) but not the document.
-/
namespace SegmentGate.Json

open SegmentGate.Text (Symbols)

inductive Token where
  | openArray
  | closeArray
  | openObject
  | closeObject
  | comma
  | colon
  | null
  | bool (b : Bool)
  | number (n : Option Nat)
  | text (s : Option String)
  deriving DecidableEq

/-! ## Bare words -/

/-- An exponent, or nothing. -/
def isExponent : List Char → Bool
  | [] => true
  | e :: r =>
    (e = 'e' || e = 'E') &&
      match r with
      | s :: ds =>
        if s = '+' || s = '-' then ds ≠ [] && ds.all Char.isDigit else r.all Char.isDigit
      | [] => false

/-- A fraction and an exponent, each of which may be missing. -/
def isFraction : List Char → Bool
  | '.' :: d :: r => d.isDigit && isExponent (r.dropWhile Char.isDigit)
  | r => isExponent r

/-- A number without its sign: no leading zeros, then a fraction and an exponent. -/
def isMagnitude : List Char → Bool
  | '0' :: r => isFraction r
  | d :: r => d.isDigit && isFraction (r.dropWhile Char.isDigit)
  | [] => false

def isNumber : List Char → Bool
  | '-' :: r => isMagnitude r
  | r => isMagnitude r

/-- The value of a number that is written as digits only. -/
def natural? (cs : List Char) : Option Nat :=
  if isNumber cs then Text.Decimal.read? cs else none

/-- The token of a word that stands outside quotes. -/
def Token.ofWord (cs : List Char) : Option Token :=
  if cs = ['n', 'u', 'l', 'l'] then some .null
  else if cs = ['t', 'r', 'u', 'e'] then some (.bool true)
  else if cs = ['f', 'a', 'l', 's', 'e'] then some (.bool false)
  else if isNumber cs then some (.number (natural? cs))
  else none

def Token.ofPunctuation : Char → Option Token
  | '[' => some .openArray
  | ']' => some .closeArray
  | '\x7b' => some .openObject
  | '\x7d' => some .closeObject
  | ',' => some .comma
  | ':' => some .colon
  | _ => none

/-! ## Quoted texts -/

/-- What is found between quotes: a character, a UTF-16 unit given by its number, or a damaged
byte. -/
inductive Piece where
  | char (c : Char)
  | unit (n : Nat)
  | damaged
  deriving DecidableEq

def isHighUnit (n : Nat) : Bool := 0xD800 ≤ n && n ≤ 0xDBFF

def isLowUnit (n : Nat) : Bool := 0xDC00 ≤ n && n ≤ 0xDFFF

/-- The characters of the pieces: a high unit and the low unit right after it make one character,
and neither stands alone. -/
def Piece.join : List Piece → Option (List Char)
  | [] => some []
  | .char c :: r => (Piece.join r).map (c :: ·)
  | .damaged :: _ => none
  | .unit n :: r =>
    if isHighUnit n then
      match r with
      | .unit m :: r =>
        if isLowUnit m then
          (Piece.join r).map (Char.ofNat (0x10000 + (n - 0xD800) * 0x400 + (m - 0xDC00)) :: ·)
        else none
      | _ => none
    else if isLowUnit n then none
    else (Piece.join r).map (Char.ofNat n :: ·)

def hexDigit? (c : Char) : Option Nat :=
  if c.isDigit then some (c.toNat - '0'.toNat)
  else if 'a' ≤ c ∧ c ≤ 'f' then some (c.toNat - 'a'.toNat + 10)
  else if 'A' ≤ c ∧ c ≤ 'F' then some (c.toNat - 'A'.toNat + 10)
  else none

/-- The character that a letter after a backslash stands for. -/
def ofEscape : Char → Option Char
  | '"' => some '"'
  | '\\' => some '\\'
  | '/' => some '/'
  | 'b' => some '\x08'
  | 'f' => some '\x0c'
  | 'n' => some '\n'
  | 'r' => some '\r'
  | 't' => some '\t'
  | _ => none

/-! ## The automaton -/

/-- Where a scan stands. Characters and pieces already read are kept last first. -/
inductive Mode where
  | between
  | word (read : List Char)
  | quoted (read : List Piece)
  | escape (read : List Piece)
  | hex (read : List Piece) (digits : Nat) (value : Nat)

/-- The text of the pieces read, last first. -/
def quotedText (read : List Piece) : Token :=
  .text ((Piece.join read.reverse).map String.ofList)

/-- A character outside words and quotes. -/
def Mode.start (c : Char) : Mode × List Token :=
  if isSpace c then (.between, [])
  else if c = '"' then (.quoted [], [])
  else
    match Token.ofPunctuation c with
    | some t => (.between, [t])
    | none => (.word [c], [])

/-- Blanks, quotes and punctuation end a word. -/
def endsWord (c : Char) : Bool := isSpace c || c = '"' || (Token.ofPunctuation c).isSome

def Mode.step : Mode → Option Char → Option (Mode × List Token)
  | .between, some c => some (Mode.start c)
  | .between, none => none
  | .word read, some c =>
    if endsWord c then
      (Token.ofWord read.reverse).map fun t => ((Mode.start c).1, t :: (Mode.start c).2)
    else some (.word (c :: read), [])
  | .word _, none => none
  | .quoted read, none => some (.quoted (.damaged :: read), [])
  | .quoted read, some c =>
    if c = '"' then some (.between, [quotedText read])
    else if c = '\\' then some (.escape read, [])
    else if c.toNat < 0x20 then none
    else some (.quoted (.char c :: read), [])
  | .escape read, some c =>
    if c = 'u' then some (.hex read 0 0, [])
    else (ofEscape c).map fun d => (.quoted (.char d :: read), [])
  | .escape _, none => none
  | .hex read digits value, some c =>
    (hexDigit? c).map fun d =>
      if digits < 3 then (.hex read (digits + 1) (value * 16 + d), [])
      else (.quoted (.unit (value * 16 + d) :: read), [])
  | .hex _ _ _, none => none

/-- The tokens still owed when the document ends. -/
def Mode.finish : Mode → Option (List Token)
  | .between => some []
  | .word read => (Token.ofWord read.reverse).map ([·])
  | _ => none

def Mode.scan : Mode → Symbols → Option (List Token)
  | m, [] => m.finish
  | m, s :: rest => do
    let (m', out) ← m.step s
    let ts ← m'.scan rest
    return out ++ ts

/-- The tokens of a document. -/
def Token.scan (s : Symbols) : Option (List Token) := Mode.between.scan s

end SegmentGate.Json
