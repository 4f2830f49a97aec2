import SegmentGate.Json.Token
/-!
# Reading JSON

The parser is a machine with a stack of the containers that are still open. Its state says what
may come next, so each token is looked at once and nesting has no limit: the records of a snapshot
have a fixed depth, and what nobody looks at is skipped at any depth. A document that is not
well formed has no value; what is wrong with it is left out.
-/
namespace SegmentGate.Json

namespace Parser

/-- A container that is still open, with what it holds so far, last first. -/
inductive Frame where
  | array (done : List Read)
  | object (done : List (Option String × Read)) (key : Option String)

inductive State where
  /-- A value must follow. -/
  | value (stack : List Frame)
  /-- An array was just opened: an item or its end must follow. -/
  | itemOrClose (stack : List Frame)
  /-- An object was just opened: a key or its end must follow. -/
  | keyOrClose (stack : List Frame)
  /-- A further key of an object must follow. -/
  | key (done : List (Option String × Read)) (stack : List Frame)
  /-- The colon after a key must follow. -/
  | colon (done : List (Option String × Read)) (key : Option String) (stack : List Frame)
  /-- A value was just completed. -/
  | complete (v : Read) (stack : List Frame)

/-- A token where a value must stand. -/
def State.onValue (stack : List Frame) : Token → Option State
  | .null => some (.complete .null stack)
  | .bool b => some (.complete (.bool b) stack)
  | .number n => some (.complete (.number n) stack)
  | .text s => some (.complete (.text s) stack)
  | .openArray => some (.itemOrClose stack)
  | .openObject => some (.keyOrClose stack)
  | _ => none

def State.step : State → Token → Option State
  | .value stack, t => State.onValue stack t
  | .itemOrClose stack, .closeArray => some (.complete (.array []) stack)
  | .itemOrClose stack, t => State.onValue (.array [] :: stack) t
  | .keyOrClose stack, .closeObject => some (.complete (.object []) stack)
  | .keyOrClose stack, .text k => some (.colon [] k stack)
  | .keyOrClose _, _ => none
  | .key done stack, .text k => some (.colon done k stack)
  | .key _ _, _ => none
  | .colon done k stack, .colon => some (.value (.object done k :: stack))
  | .colon _ _ _, _ => none
  | .complete v (.array done :: stack), .comma => some (.value (.array (v :: done) :: stack))
  | .complete v (.array done :: stack), .closeArray =>
    some (.complete (.array (v :: done).reverse) stack)
  | .complete v (.object done k :: stack), .comma => some (.key ((k, v) :: done) stack)
  | .complete v (.object done k :: stack), .closeObject =>
    some (.complete (.object ((k, v) :: done).reverse) stack)
  | .complete _ _, _ => none

/-- The value, once nothing is open any more. -/
def State.result : State → Option Read
  | .complete v [] => some v
  | _ => none

end Parser

/-- The one value that the tokens spell. -/
def ofTokens? (ts : List Token) : Option Read :=
  (ts.foldlM Parser.State.step (.value [])).bind Parser.State.result

/-- The value of a document. -/
def read? (bytes : ByteArray) : Option Read :=
  (Token.scan (Text.Symbols.ofBytes bytes)).bind ofTokens?

end SegmentGate.Json
