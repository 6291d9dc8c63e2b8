import PottsOracle.Json.Token

/-!
# Reading documents

The tokens of a document drive a machine with a stack.  The stack holds the lists and records that
are open, innermost first; the state says what may come next.  A document is accepted if the
machine has a complete value when its tokens end.

Of several fields with one key the last one counts, in the place of the first.  Lists and records
may be open inside each other up to a limit.
-/

namespace PottsOracle.Json

/-- A list or record that is still open. -/
inductive Frame where
  /-- A list and the items it has so far, the newest first. -/
  | list (items : List Value)
  /-- A record and the fields it has so far. -/
  | record (fields : Fields)
  /-- A record and the key of the field whose value is awaited. -/
  | field (fields : Fields) (key : Text)

/-- What may come next, with the open lists and records. -/
inductive State where
  | value (stack : List Frame)
  /-- The first item of a list, or its end; the list is not on the stack yet. -/
  | itemOrClose (stack : List Frame)
  /-- The first key of a record, or its end; the record is not on the stack yet. -/
  | keyOrClose (stack : List Frame)
  | key (fields : Fields) (stack : List Frame)
  | colon (fields : Fields) (key : Text) (stack : List Frame)
  /-- A comma, or the end of the innermost list or record. -/
  | commaOrClose (stack : List Frame)
  /-- Nothing: the document is complete. -/
  | done (v : Value)

/-- The state after a value has ended. -/
def State.complete (v : Value) : List Frame → State
  | [] => .done v
  | .list items :: stack => .commaOrClose (.list (v :: items) :: stack)
  | .field fields name :: stack => .commaOrClose (.record (fields.set name v) :: stack)
  | .record fields :: stack => .commaOrClose (.record fields :: stack)

/-- The most lists and records that may be open at once. -/
def maxDepth : Nat := 990

/-- Opens a list or record inside those on the stack. -/
def State.deeper (stack : List Frame) (state : State) : Except SyntaxError State :=
  if stack.length < maxDepth then .ok state else .error .tooDeep

/-- Starts a value with a token. -/
def State.start (stack : List Frame) : Token → Except SyntaxError State
  | .text t => .ok (.complete (.text t) stack)
  | .leaf v => .ok (.complete v stack)
  | .longInteger => .error .tooManyDigits
  | .openList => deeper stack (.itemOrClose stack)
  | .openRecord => deeper stack (.keyOrClose stack)
  | _ => .error .misplacedToken

/-- One token. -/
def State.step : State → Token → Except SyntaxError State
  | .value stack, token => start stack token
  | .itemOrClose stack, .closeList => .ok (.complete (.list []) stack)
  | .itemOrClose stack, token => start (.list [] :: stack) token
  | .keyOrClose stack, .closeRecord => .ok (.complete (.record []) stack)
  | .keyOrClose stack, .text name => .ok (.colon [] name stack)
  | .key fields stack, .text name => .ok (.colon fields name stack)
  | .colon fields name stack, .colon => .ok (.value (.field fields name :: stack))
  | .commaOrClose (.list items :: stack), .comma => .ok (.value (.list items :: stack))
  | .commaOrClose (.list items :: stack), .closeList =>
    .ok (.complete (.list items.reverse) stack)
  | .commaOrClose (.record fields :: stack), .comma => .ok (.key fields stack)
  | .commaOrClose (.record fields :: stack), .closeRecord =>
    .ok (.complete (.record fields) stack)
  | _, _ => .error .misplacedToken

/-- All tokens of a row. -/
def State.run (state : State) (row : List Token) : Except SyntaxError State :=
  row.foldlM State.step state

/-- The value of a document. -/
def read (s : Text) : Except SyntaxError Value := do
  match ← State.run (.value []) (tokens s) with
  | .done v => .ok v
  | _ => .error .endOfText

end PottsOracle.Json
